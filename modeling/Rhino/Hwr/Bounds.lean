import Rhino.Hwr.Registration

/-!
# Bounds of the registry

The places of `hwrtypes`, of `phyhwrs` and of the array of a type that the functions of
`kernel/hwr/common.c` touch.  The array is allocated with the size of one pointer, and
its three loops run to `num_devs`.
-/

namespace Rhino.Hwr.Registration

open Rhino.Bof Rhino.Transition

/-- The size of a pointer, and of the array that is allocated for a type. -/
def POINTER_SIZE : ℕ := 4

/-- The number of pointers in `kmalloc(sizeof(struct phywr*), GFP_KERNEL)`. -/
def pointersAllocated : ℕ :=
  POINTER_SIZE / POINTER_SIZE

/-- An element of a table, or of the array of a type, that is read or written. -/
inductive Access where
  | hwrtypes (index : UInt16)
  | phyhwrs (index : UInt16)
  | device (index : ℕ)
  deriving DecidableEq, Repr

/-- The element exists. -/
def Access.Inside : Access → Prop
  | .hwrtypes index => index < MAX_HWRTYPES
  | .phyhwrs index => index < MAX_HWRTYPES
  | .device index => index < pointersAllocated

/-! ## Accesses of the functions -/

/-- The loop of `register_hwrtype` from device `i` on, with `left` devices to go: whether
it runs to its end, and the elements that it and the loop at `nomem_free` touch. -/
def createDevices (device : ℕ → Option PhyHwr) : ℕ → ℕ → Bool × List ℕ
  | _, 0 => (true, [])
  | i, left + 1 =>
      match device i with
      | none => (false, i :: (List.range i).reverse)
      | some _ => ((createDevices device (i + 1) left).1,
          i :: (createDevices device (i + 1) left).2)

section Accesses

variable (data : Hwrtype → HwrtypeData)

/-- The accesses of `register_hwrtype` once the place of the type is found vacant. -/
def createAccesses (ht : Hwrtype) (mem : RegisterMem) (t : Tables) : List Access :=
  let type := (data ht).type
  match t.phyhwrs type with
  | some _ => [.phyhwrs type, .hwrtypes type]
  | none =>
      if mem.array then
        let created := createDevices mem.device 0 (data ht).numDevs.toNat
        .phyhwrs type :: created.2.map .device ++
          [if created.1 then .hwrtypes type else .phyhwrs type]
      else [.phyhwrs type]

/-- The accesses of `register_hwrtype`, as far as its behaviour is defined. -/
def registerAccesses (ht : Hwrtype) (mem : RegisterMem) (t : Tables) : List Access :=
  let type := (data ht).type
  if MAX_HWRTYPES < type then []
  else .hwrtypes type ::
    if type = MAX_HWRTYPES then []
    else
      match t.hwrtypes type with
      | some _ => []
      | none => createAccesses data ht mem t

/-- The accesses of `unregister_hwrtype` once the last use has been given up. -/
def freeAccesses (ht : Hwrtype) (t : Tables) : List Access :=
  let type := (data ht).type
  match t.phyhwrs type with
  | none => [.hwrtypes type, .phyhwrs type]
  | some _ => .hwrtypes type :: .phyhwrs type ::
      (List.range (data ht).numDevs.toNat).map .device ++ [.phyhwrs type]

/-- The accesses of `unregister_hwrtype`, as far as its behaviour is defined. -/
def unregisterAccesses (ht : Hwrtype) (t : Tables) : List Access :=
  let type := (data ht).type
  .hwrtypes type ::
    if MAX_HWRTYPES ≤ type then []
    else
      match t.hwrtypes type with
      | none => []
      | some ct =>
          if (data ct).type = type ∧ t.count ht = 1 then freeAccesses data ht t else []

/-- The accesses of `get_hwrops` and `put_hwrops`. -/
def opsAccesses (cls : UInt16) : List Access :=
  if MAX_HWRTYPES ≤ cls then [] else [.hwrtypes cls]

def accesses (s : State) : Label → List Access
  | .register ht mem => registerAccesses data ht mem s.tables
  | .unregister ht => unregisterAccesses data ht s.tables
  | .get cls => opsAccesses cls
  | .put ht => opsAccesses (data ht).type

/-- A call stays inside the tables and arrays. -/
def InBounds (s : State) (label : Label) : Prop :=
  ∀ access ∈ accesses data s label, access.Inside

end Accesses

/-! ## The calls and their accesses -/

theorem lt_of_mem_createDevices {device : ℕ → Option PhyHwr} {i left k : ℕ}
    (mem : k ∈ (createDevices device i left).2) : k < i + left := by
  induction left generalizing i with
  | zero => simp [createDevices] at mem
  | succ left ih =>
      rw [createDevices] at mem
      cases made : device i with
      | none =>
          simp only [made, List.mem_cons, List.mem_reverse, List.mem_range] at mem
          omega
      | some record =>
          simp only [made, List.mem_cons] at mem
          rcases mem with rfl | later
          · omega
          · have lt := ih later
            omega

/-- With memory for every device the loop touches all of them. -/
theorem createDevices_snd {device : ℕ → Option PhyHwr} (enough : ∀ k, (device k).isSome)
    (i left : ℕ) : (createDevices device i left).2 = List.range' i left := by
  induction left generalizing i with
  | zero => rfl
  | succ left ih =>
      rcases Option.isSome_iff_exists.mp (enough i) with ⟨record, made⟩
      rw [createDevices, made, List.range'_succ, ih]

section Bounds

variable {data : Hwrtype → HwrtypeData}

/-- An access to the place of a type, or to one of its devices. -/
def Access.OfType (type numDevs : UInt16) : Access → Prop
  | .hwrtypes index => index = type
  | .phyhwrs index => index = type
  | .device index => index < numDevs.toNat

theorem createAccesses_ofType {ht : Hwrtype} {mem : RegisterMem} {t : Tables} :
    ∀ access ∈ createAccesses data ht mem t, access.OfType (data ht).type (data ht).numDevs := by
  intro access member
  simp only [createAccesses] at member
  split at member
  · rcases List.mem_pair.mp member with rfl | rfl
    · rfl
    · rfl
  · split at member
    · rcases List.mem_append.mp member with found | stored
      · rcases List.mem_cons.mp found with rfl | created
        · rfl
        · rcases List.mem_map.mp created with ⟨k, touched, rfl⟩
          have lt := lt_of_mem_createDevices touched
          rwa [Nat.zero_add] at lt
      · rw [List.mem_singleton.mp stored]
        split
        · rfl
        · rfl
    · rw [List.mem_singleton.mp member]
      rfl

theorem freeAccesses_ofType {ht : Hwrtype} {t : Tables} :
    ∀ access ∈ freeAccesses data ht t, access.OfType (data ht).type (data ht).numDevs := by
  intro access member
  simp only [freeAccesses] at member
  split at member
  · rcases List.mem_pair.mp member with rfl | rfl
    · rfl
    · rfl
  · rcases List.mem_append.mp member with found | stored
    · rcases List.mem_cons.mp found with rfl | found
      · rfl
      · rcases List.mem_cons.mp found with rfl | freed
        · rfl
        · rcases List.mem_map.mp freed with ⟨k, touched, rfl⟩
          exact List.mem_range.mp touched
    · rw [List.mem_singleton.mp stored]
      rfl

theorem registerAccesses_ofType {ht : Hwrtype} {mem : RegisterMem} {t : Tables} :
    ∀ access ∈ registerAccesses data ht mem t,
      access.OfType (data ht).type (data ht).numDevs := by
  intro access member
  simp only [registerAccesses] at member
  split at member
  · contradiction
  · rcases List.mem_cons.mp member with rfl | behind
    · rfl
    · split at behind
      · contradiction
      · split at behind
        · contradiction
        · exact createAccesses_ofType access behind

theorem unregisterAccesses_ofType {ht : Hwrtype} {t : Tables} :
    ∀ access ∈ unregisterAccesses data ht t,
      access.OfType (data ht).type (data ht).numDevs := by
  intro access member
  rcases List.mem_cons.mp member with rfl | behind
  · rfl
  · split at behind
    · contradiction
    · split at behind
      · contradiction
      · split at behind
        · exact freeAccesses_ofType access behind
        · contradiction

namespace Access

variable {type numDevs : UInt16} {access : Access}

theorem OfType.inside (ofType : access.OfType type numDevs) (inside : type < MAX_HWRTYPES)
    (single : numDevs ≤ 1) : access.Inside := by
  cases access with
  | hwrtypes index => exact ofType ▸ inside
  | phyhwrs index => exact ofType ▸ inside
  | device index => exact lt_of_lt_of_le ofType single

end Access

/-! ## Every run -/

/-- A hwrtype is unregistered only after it was passed to `register_hwrtype`. -/
def Ordered (labels : List Label) : Prop :=
  ∀ front ht back, labels = front ++ .unregister ht :: back →
    ∃ mem, .register ht mem ∈ front

theorem opsAccesses_inside (cls : UInt16) : ∀ access ∈ opsAccesses cls, access.Inside := by
  unfold opsAccesses
  split_ifs with large
  · exact List.forall_mem_nil _
  · exact List.forall_mem_singleton.mpr (UInt16.not_le.mp large)

theorem inBounds_of_small (small : ∀ ht, (data ht).type < MAX_HWRTYPES ∧ (data ht).numDevs ≤ 1)
    (s : State) (label : Label) : InBounds data s label := by
  intro access mem
  cases label with
  | register ht memory =>
      exact (registerAccesses_ofType access mem).inside (small ht).1 (small ht).2
  | unregister ht =>
      exact (unregisterAccesses_ofType access mem).inside (small ht).1 (small ht).2
  | get cls => exact opsAccesses_inside cls access mem
  | put ht => exact opsAccesses_inside (data ht).type access mem

/-- The first hwrtype of a type touches each of its devices. -/
theorem device_mem_registerAccesses {ht : Hwrtype} (inside : (data ht).type < MAX_HWRTYPES) {k : ℕ}
    (lt : k < (data ht).numDevs.toNat) :
    .device k ∈ registerAccesses data ht ampleMem booted.tables := by
  have touched : k ∈ (createDevices ampleMem.device 0 (data ht).numDevs.toNat).2 := by
    rw [createDevices_snd fun _ => rfl]
    exact List.mem_range'_1.mpr ⟨Nat.zero_le k, by omega⟩
  have created : .device k ∈ createAccesses data ht ampleMem booted.tables :=
    List.mem_append_left _ (List.mem_cons_of_mem _ (List.mem_map_of_mem touched))
  simp only [registerAccesses]
  rw [if_neg (UInt16.not_lt.mpr (UInt16.le_of_lt inside)), if_neg (UInt16.ne_of_lt inside)]
  exact List.mem_cons_of_mem _ created

theorem ordered_register_unregister (ht : Hwrtype) (mem : RegisterMem) :
    Ordered [.register ht mem, .unregister ht] := by
  intro front other back split_eq
  cases front with
  | nil => simp at split_eq
  | cons first rest =>
      cases rest with
      | nil =>
          simp only [List.cons_append, List.nil_append, List.cons.injEq, Label.unregister.injEq]
            at split_eq
          rcases split_eq with ⟨rfl, rfl, -⟩
          exact ⟨mem, List.mem_singleton_self _⟩
      | cons second rest => simp at split_eq

/-- All accesses of all runs exist exactly if every hwrtype has a type below the size of
the tables and at most one device. -/
theorem registry_in_bounds_iff (data : Hwrtype → HwrtypeData) :
    (∀ labels, Ordered labels → Along (step data) (InBounds data) booted labels) ↔
      ∀ ht, (data ht).type < MAX_HWRTYPES ∧ (data ht).numDevs ≤ 1 := by
  constructor
  · intro always ht
    rcases always _ (ordered_register_unregister ht ampleMem) with ⟨registers, later⟩
    have inside : (data ht).type < MAX_HWRTYPES := by
      by_cases large : MAX_HWRTYPES < (data ht).type
      · have refused : step data booted (.register ht ampleMem) = some booted := by
          simp [step, registerHwrtype, large]
        exact (later booted refused).1 _ List.mem_cons_self
      · apply registers (.hwrtypes (data ht).type)
        simp [accesses, registerAccesses, large]
    refine ⟨inside, ?_⟩
    by_contra many
    have two : 1 < (data ht).numDevs.toNat := UInt16.not_le.mp many
    have exists_second : 1 < pointersAllocated :=
      registers _ (device_mem_registerAccesses inside two)
    exact absurd exists_second (by decide)
  · intro small labels _
    exact along_of_forall (step data) (inBounds_of_small small) booted labels

end Bounds

/-- Hwrtypes that all have this type and this number of devices. -/
def typesOf (type numDevs : UInt16) : Hwrtype → HwrtypeData := fun _ => ⟨type, numDevs, true⟩

/-- A type that the test lets through, and a type with two devices. -/
theorem registry_leaves_its_tables :
    ¬ Along (step (typesOf 16 1)) (InBounds (typesOf 16 1)) booted
        [.register 0 ampleMem, .unregister 0] ∧
      ¬ Along (step (typesOf 1 2)) (InBounds (typesOf 1 2)) booted
        [.register 0 ampleMem, .unregister 0] := by
  constructor
  · intro along
    have exists_place : (16 : UInt16) < MAX_HWRTYPES := along.1 (.hwrtypes 16) List.mem_cons_self
    exact absurd exists_place (by decide)
  · intro along
    have exists_second : 1 < pointersAllocated :=
      along.1 (.device 1) (@device_mem_registerAccesses (typesOf 1 2) 0 (by decide) 1 (by decide))
    exact absurd exists_second (by decide)

end Rhino.Hwr.Registration
