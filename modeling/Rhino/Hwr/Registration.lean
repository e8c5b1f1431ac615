import Rhino.Hwr.RhinoDriver
import Rhino.Transition.Run

/-!
# Registering and unregistering hwrtypes

`register_hwrtype` and `unregister_hwrtype` of `kernel/hwr/common.c`, beside
`get_hwrops` and `put_hwrops`, on any number of `struct hwrtype`, of which several
may have the same type.

The registration holds one use of the hwrtype.  `unregister_hwrtype` gives it up
before it knows whether there are others, and does not take it back when it
fails.
-/

namespace Rhino.Hwr.Registration

open Rhino.Bof Rhino.Transition

/-- A `struct hwrtype`, by identity. -/
abbrev Hwrtype := ℕ

/-- The fields of a `struct hwrtype` that do not change: `type`, `num_devs`, and
whether `hwr_ops` is set. -/
structure HwrtypeData where
  type : UInt16
  numDevs : UInt16
  hwrOps : Bool

/-- `hwrtypes`, `phyhwrs` with the records of each type, and the counts of all
hwrtypes. -/
structure Tables where
  hwrtypes : UInt16 → Option Hwrtype
  phyhwrs : UInt16 → Option (List PhyHwr)
  count : Hwrtype → ℤ

/-- What `kmalloc` returns for the array of a type and for its records, with what
is in the memory. -/
structure RegisterMem where
  array : Bool
  device : ℕ → Option PhyHwr

/-- The array with all records, unless some memory is missing. -/
def RegisterMem.records (mem : RegisterMem) (numDevs : UInt16) : Option (List PhyHwr) :=
  if mem.array then (List.range numDevs.toNat).mapM mem.device else none

section Operations

variable (data : Hwrtype → HwrtypeData)

/-- `atomic_inc` and `atomic_dec` of a count. -/
def Tables.addCount (t : Tables) (ht : Hwrtype) (change : ℤ) : Tables :=
  { t with count := Function.update t.count ht (t.count ht + change) }

/-- Store a hwrtype in its place. -/
def Tables.enter (t : Tables) (ht : Hwrtype) : Tables :=
  ({ t with hwrtypes := Function.update t.hwrtypes (data ht).type (some ht) }).addCount ht 1

/-- `register_hwrtype`.  Its test lets `MAX_HWRTYPES` through, which is behind the
end of the table: there the call has no defined result. -/
def registerHwrtype (ht : Hwrtype) (mem : RegisterMem) (t : Tables) : Option (ℤ × Tables) :=
  let type := (data ht).type
  if MAX_HWRTYPES < type then some (-1, t)
  else if type = MAX_HWRTYPES then none
  else
    match t.hwrtypes type with
    | some _ => some (-1, t)
    | none =>
        match t.phyhwrs type with
        | some _ => some (0, t.enter data ht)
        | none =>
            match mem.records (data ht).numDevs with
            | none => some (-1, t)
            | some records =>
                let t := { t with phyhwrs := Function.update t.phyhwrs type (some records) }
                some (0, t.enter data ht)

/-- `unregister_hwrtype`, which does not look at the bounds of the table at all. -/
def unregisterHwrtype (ht : Hwrtype) (t : Tables) : Option (ℤ × Tables) :=
  let type := (data ht).type
  if MAX_HWRTYPES ≤ type then none
  else
    match t.hwrtypes type with
    | none => some (-1, t)
    | some ct =>
        if (data ct).type = type then
          let t := t.addCount ht (-1)
          if t.count ht = 0 then
            some (0, { t with
              hwrtypes := Function.update t.hwrtypes type none
              phyhwrs := Function.update t.phyhwrs type none })
          else some (-1, t)
        else some (-1, t)

/-- `get_hwrops`: the hwrtype that it counts a use of.  The caller sees its
`hwr_ops`. -/
def getHwrops (cls : UInt16) (t : Tables) : Option Hwrtype × Tables :=
  if MAX_HWRTYPES ≤ cls then (none, t)
  else
    match t.hwrtypes cls with
    | none => (none, t)
    | some ht => (some ht, t.addCount ht 1)

/-- `put_hwrops`. -/
def putHwrops (cls : UInt16) (t : Tables) : Tables :=
  if MAX_HWRTYPES ≤ cls then t
  else
    match t.hwrtypes cls with
    | none => t
    | some ht => t.addCount ht (-1)

/-- The tables, and how many gets of each hwrtype have succeeded and not been put. -/
structure State where
  tables : Tables
  uses : Hwrtype → ℕ

/-- One call; a put matches an earlier get of the hwrtype. -/
inductive Label where
  | register (ht : Hwrtype) (mem : RegisterMem)
  | unregister (ht : Hwrtype)
  | get (cls : UInt16)
  | put (ht : Hwrtype)

def step (s : State) : Label → Option State
  | .register ht mem =>
      (registerHwrtype data ht mem s.tables).map fun ended => { s with tables := ended.2 }
  | .unregister ht =>
      (unregisterHwrtype data ht s.tables).map fun ended => { s with tables := ended.2 }
  | .get cls =>
      match getHwrops cls s.tables with
      | (none, t) => some { s with tables := t }
      | (some ht, t) =>
          -- A NULL `hwr_ops` looks like a failure to the caller.
          some { s with
            tables := t
            uses := if (data ht).hwrOps then Function.update s.uses ht (s.uses ht + 1)
              else s.uses }
  | .put ht =>
      if s.uses ht = 0 then none
      else some { s with
        tables := putHwrops (data ht).type s.tables
        uses := Function.update s.uses ht (s.uses ht - 1) }

/-! ## The property and its guard -/

/-- The hwrtype is the one that is registered for its type. -/
def Registered (t : Tables) (ht : Hwrtype) : Prop :=
  t.hwrtypes (data ht).type = some ht

instance (t : Tables) (ht : Hwrtype) : Decidable (Registered data t ht) :=
  inferInstanceAs (Decidable (_ = _))

/-- The counts are right, and a hwrtype that nobody uses can be unregistered. -/
structure Sound (s : State) : Prop where
  counted : ∀ ht, s.tables.count ht =
    (if Registered data s.tables ht then 1 else 0) + (s.uses ht : ℤ)
  succeeds : ∀ ht, Registered data s.tables ht → s.uses ht = 0 →
    ∃ after, unregisterHwrtype data ht s.tables = some (0, after)

/-- An attempt to unregister that fails leaves everything as it was. -/
def FailsClean (s : State) : Label → Prop
  | .unregister ht => ∀ after, unregisterHwrtype data ht s.tables = some (-1, after) →
      after = s.tables
  | _ => True

/-- A hwrtype is unregistered only when nobody uses it, and not while another one
is registered for its type; what is got has operations. -/
def Unused (s : State) : Label → Prop
  | .unregister ht => s.tables.hwrtypes (data ht).type = none ∨
      (Registered data s.tables ht ∧ s.uses ht = 0)
  | .get cls => ∀ ht, (getHwrops cls s.tables).1 = some ht → (data ht).hwrOps = true
  | _ => True

/-- As `hwr_init` leaves the tables. -/
structure Initial (s : State) : Prop where
  hwrtypes : ∀ cls, s.tables.hwrtypes cls = none
  count : ∀ ht, s.tables.count ht = 0
  uses : ∀ ht, s.uses ht = 0

/-! ## What each operation does -/

variable {data}

theorem registerHwrtype_cases {ht : Hwrtype} {mem : RegisterMem} {t after : Tables} {ret : ℤ}
    (returned : registerHwrtype data ht mem t = some (ret, after)) :
    after = t ∨ (data ht).type < MAX_HWRTYPES ∧ t.hwrtypes (data ht).type = none ∧
      after.hwrtypes = Function.update t.hwrtypes (data ht).type (some ht) ∧
      after.count = Function.update t.count ht (t.count ht + 1) := by
  unfold registerHwrtype at returned
  by_cases large : MAX_HWRTYPES < (data ht).type
  · simp only [large, if_true, Option.some.injEq, Prod.mk.injEq] at returned
    exact Or.inl returned.2.symm
  by_cases behind : (data ht).type = MAX_HWRTYPES
  · simp [behind] at returned
  have inside : (data ht).type < MAX_HWRTYPES :=
    UInt16.lt_of_le_of_ne (UInt16.not_lt.mp large) behind
  simp only [large, behind, if_false] at returned
  cases place : t.hwrtypes (data ht).type with
  | some ct =>
      simp only [place, Option.some.injEq, Prod.mk.injEq] at returned
      exact Or.inl returned.2.symm
  | none =>
      cases array : t.phyhwrs (data ht).type with
      | some devices =>
          simp only [place, array, Option.some.injEq, Prod.mk.injEq] at returned
          obtain ⟨-, rfl⟩ := returned
          exact Or.inr ⟨inside, rfl, rfl, rfl⟩
      | none =>
          cases records : mem.records (data ht).numDevs with
          | none =>
              simp only [place, array, records, Option.some.injEq, Prod.mk.injEq] at returned
              exact Or.inl returned.2.symm
          | some devices =>
              simp only [place, array, records, Option.some.injEq, Prod.mk.injEq] at returned
              obtain ⟨-, rfl⟩ := returned
              exact Or.inr ⟨inside, rfl, rfl, rfl⟩

/-- The bounds of the table are respected. -/
theorem inside_of_unregistered {ht : Hwrtype} {t : Tables} {ended : ℤ × Tables}
    (returned : unregisterHwrtype data ht t = some ended) : (data ht).type < MAX_HWRTYPES := by
  by_contra outside
  simp [unregisterHwrtype, UInt16.not_lt.mp outside] at returned

theorem unregisterHwrtype_none {ht : Hwrtype} {t : Tables}
    (inside : (data ht).type < MAX_HWRTYPES) (place : t.hwrtypes (data ht).type = none) :
    unregisterHwrtype data ht t = some (-1, t) := by
  simp [unregisterHwrtype, inside, place]

/-- The last use is given up. -/
theorem unregisterHwrtype_one {ht ct : Hwrtype} {t : Tables}
    (inside : (data ht).type < MAX_HWRTYPES) (place : t.hwrtypes (data ht).type = some ct)
    (same : (data ct).type = (data ht).type) (one : t.count ht = 1) :
    unregisterHwrtype data ht t = some (0,
      { hwrtypes := Function.update t.hwrtypes (data ht).type none
        phyhwrs := Function.update t.phyhwrs (data ht).type none
        count := Function.update t.count ht 0 }) := by
  simp [unregisterHwrtype, inside, place, same, Tables.addCount, one]

/-- A use is given up, and it is not the last one. -/
theorem unregisterHwrtype_many {ht ct : Hwrtype} {t : Tables}
    (inside : (data ht).type < MAX_HWRTYPES) (place : t.hwrtypes (data ht).type = some ct)
    (same : (data ct).type = (data ht).type) (many : t.count ht ≠ 1) :
    unregisterHwrtype data ht t = some (-1, t.addCount ht (-1)) := by
  have nonzero : t.count ht + -1 ≠ 0 := by omega
  simp [unregisterHwrtype, inside, place, same, Tables.addCount, nonzero]

/-! ## The counts under the guard -/

/-- The counts are right, what is registered is in its own place, and only what
is registered is in use. -/
structure Kept (data : Hwrtype → HwrtypeData) (s : State) : Prop where
  counted : ∀ ht, s.tables.count ht =
    (if Registered data s.tables ht then 1 else 0) + (s.uses ht : ℤ)
  place : ∀ cls ht, s.tables.hwrtypes cls = some ht →
    (data ht).type = cls ∧ cls < MAX_HWRTYPES
  idle : ∀ ht, ¬ Registered data s.tables ht → s.uses ht = 0

theorem Initial.kept {s : State} (initial : Initial s) : Kept data s := by
  constructor
  · intro ht
    simp [Registered, initial.hwrtypes, initial.count, initial.uses]
  · intro cls ht registered
    simp [initial.hwrtypes] at registered
  · intro ht _
    exact initial.uses ht

namespace Kept

variable {s next : State} {ht : Hwrtype}

/-- The hwrtype that a get finds. -/
theorem found_of_get {cls : UInt16} {t : Tables} (found : (getHwrops cls t).1 = some ht) :
    t.hwrtypes cls = some ht ∧ getHwrops cls t = (some ht, t.addCount ht 1) := by
  unfold getHwrops at found ⊢
  by_cases large : MAX_HWRTYPES ≤ cls
  · simp [large] at found
  cases place : t.hwrtypes cls with
  | none => simp [large, place] at found
  | some other =>
      simp only [large, place, if_false, Option.some.injEq] at found
      simp [large, found]

theorem getHwrops_none {cls : UInt16} {t : Tables} (missing : (getHwrops cls t).1 = none) :
    getHwrops cls t = (none, t) := by
  unfold getHwrops at missing ⊢
  by_cases large : MAX_HWRTYPES ≤ cls
  · simp [large]
  cases place : t.hwrtypes cls with
  | none => simp [large]
  | some other => simp [large, place] at missing

variable (kept : Kept data s)
include kept

theorem count_registered (registered : Registered data s.tables ht) :
    s.tables.count ht = 1 + (s.uses ht : ℤ) := by
  rw [kept.counted ht, if_pos registered]

theorem count_other (unregistered : ¬ Registered data s.tables ht) :
    s.tables.count ht = 0 := by
  rw [kept.counted ht, if_neg unregistered, kept.idle ht unregistered]
  rfl

theorem registered_of_uses (used : s.uses ht ≠ 0) :
    Registered data s.tables ht := by
  by_contra unregistered
  exact used (kept.idle ht unregistered)

/-- What is found under a class is registered. -/
theorem registered_of_found {cls : UInt16}
    (found : s.tables.hwrtypes cls = some ht) : Registered data s.tables ht := by
  rw [Registered, (kept.place cls ht found).1]
  exact found

theorem sound : Sound data s := by
  refine ⟨kept.counted, ?_⟩
  intro ht registered unused
  have one : s.tables.count ht = 1 := by
    rw [kept.count_registered registered, unused]
    rfl
  exact ⟨_, unregisterHwrtype_one (kept.place _ ht registered).2 registered rfl one⟩

/-- A call that adds the same to the count and to the uses of a hwrtype. -/
theorem addUses (registered : Registered data s.tables ht) {uses : ℕ}
    {change : ℤ} (matched : (uses : ℤ) = s.uses ht + change) :
    Kept data
      { tables := s.tables.addCount ht change, uses := Function.update s.uses ht uses } := by
  refine ⟨?_, kept.place, ?_⟩
  · intro other
    by_cases same : other = ht
    · subst same
      have registered_after : Registered data (s.tables.addCount other change) other := registered
      rw [if_pos registered_after]
      simp only [Tables.addCount, Function.update_self, kept.count_registered registered, matched]
      ring
    · have count_eq : (s.tables.addCount ht change).count other = s.tables.count other :=
        Function.update_of_ne same _ _
      have uses_eq : Function.update s.uses ht uses other = s.uses other :=
        Function.update_of_ne same _ _
      dsimp only
      rw [count_eq, uses_eq]
      exact kept.counted other
  · intro other unregistered
    have ne : other ≠ ht := by
      rintro rfl
      exact unregistered registered
    simpa [ne] using kept.idle other unregistered

theorem register {mem : RegisterMem}
    (taken : step data s (.register ht mem) = some next) : Kept data next := by
  obtain ⟨⟨ret, after⟩, returned, rfl⟩ := Option.map_eq_some_iff.mp taken
  rcases registerHwrtype_cases returned with rfl | ⟨inside, place, hwrtypes, count⟩
  · exact kept
  have unregistered : ¬ Registered data s.tables ht := by simp [Registered, place]
  -- No other hwrtype can be in the place that is taken.
  have registered_iff (other : Hwrtype) :
      Registered data after other ↔ other = ht ∨ Registered data s.tables other := by
    by_cases same : (data other).type = (data ht).type
    · have vacant : ¬ Registered data s.tables other := by simp [Registered, same, place]
      simp [Registered, hwrtypes, same, place, eq_comm]
    · have ne : other ≠ ht := by
        rintro rfl
        exact same rfl
      simp [Registered, hwrtypes, same, ne]
  constructor
  · intro other
    by_cases same : other = ht
    · subst same
      simp [registered_iff, count, kept.count_other unregistered, kept.idle other unregistered]
    · simpa [registered_iff, count, same] using kept.counted other
  · intro cls other found
    by_cases same : cls = (data ht).type
    · subst same
      simp only [hwrtypes, Function.update_self, Option.some.injEq] at found
      subst found
      exact ⟨rfl, inside⟩
    · apply kept.place
      simpa [hwrtypes, same] using found
  · intro other vacant
    exact kept.idle other fun registered => vacant ((registered_iff other).mpr (Or.inr registered))

theorem unregister (unused : Unused data s (.unregister ht))
    (taken : step data s (.unregister ht) = some next) : Kept data next := by
  obtain ⟨ended, returned, rfl⟩ := Option.map_eq_some_iff.mp taken
  have inside := inside_of_unregistered returned
  rcases unused with vacant | ⟨registered, zero⟩
  · rw [unregisterHwrtype_none inside vacant] at returned
    cases returned
    exact kept
  have one : s.tables.count ht = 1 := by
    rw [kept.count_registered registered, zero]
    rfl
  rw [unregisterHwrtype_one inside registered rfl one] at returned
  cases returned
  -- Nobody else was in the place that is cleared.
  have registered_iff (other : Hwrtype) :
      Registered data ⟨Function.update s.tables.hwrtypes (data ht).type none,
        Function.update s.tables.phyhwrs (data ht).type none,
        Function.update s.tables.count ht 0⟩ other ↔
      other ≠ ht ∧ Registered data s.tables other := by
    by_cases same : (data other).type = (data ht).type
    · have place : s.tables.hwrtypes (data ht).type = some ht := registered
      simp [Registered, same, place, eq_comm]
    · have ne : other ≠ ht := by
        rintro rfl
        exact same rfl
      simp [Registered, same, ne]
  constructor
  · intro other
    by_cases same : other = ht
    · subst same
      simp [registered_iff, zero]
    · simpa [registered_iff, same] using kept.counted other
  · intro cls other found
    by_cases same : cls = (data ht).type
    · simp [same] at found
    · apply kept.place
      simpa [same] using found
  · intro other vacant
    by_cases same : other = ht
    · rw [same]
      exact zero
    · exact kept.idle other fun place => vacant ((registered_iff other).mpr ⟨same, place⟩)

theorem get {cls : UInt16} (unused : Unused data s (.get cls))
    (taken : step data s (.get cls) = some next) : Kept data next := by
  cases found : (getHwrops cls s.tables).1 with
  | none =>
      simp only [step, getHwrops_none found, Option.some.injEq] at taken
      subst taken
      exact kept
  | some ht =>
      obtain ⟨place, got⟩ := found_of_get found
      simp only [step, got, unused ht found, if_true, Option.some.injEq] at taken
      subst taken
      exact kept.addUses (kept.registered_of_found place) (by simp)

theorem put (taken : step data s (.put ht) = some next) :
    Kept data next := by
  by_cases zero : s.uses ht = 0
  · simp [step, zero] at taken
  have registered := kept.registered_of_uses zero
  have inside := (kept.place _ ht registered).2
  have place : s.tables.hwrtypes (data ht).type = some ht := registered
  have given : putHwrops (data ht).type s.tables = s.tables.addCount ht (-1) := by
    simp [putHwrops, place, inside]
  simp only [step, zero, if_false, given, Option.some.injEq] at taken
  subst taken
  exact kept.addUses registered (by omega)

theorem step {label : Label} (unused : Unused data s label)
    (taken : step data s label = some next) : Kept data next := by
  cases label with
  | register ht mem => exact kept.register taken
  | unregister ht => exact kept.unregister unused taken
  | get cls => exact kept.get unused taken
  | put ht => exact kept.put taken

theorem failsClean {label : Label} (unused : Unused data s label) :
    FailsClean data s label := by
  cases label with
  | register ht mem => trivial
  | get cls => trivial
  | put ht => trivial
  | unregister ht =>
      intro after failed
      have inside := inside_of_unregistered failed
      rcases unused with vacant | ⟨registered, zero⟩
      · rw [unregisterHwrtype_none inside vacant] at failed
        simp only [Option.some.injEq, Prod.mk.injEq, true_and] at failed
        exact failed.symm
      · obtain ⟨cleared, succeeded⟩ := kept.sound.succeeds ht registered zero
        simp [succeeded] at failed

/-! ## What a step against the guard does -/

/-- A count that changes without a use is wrong. -/
theorem not_sound_addCount {change : ℤ} (nonzero : change ≠ 0) :
    ¬ Sound data { s with tables := s.tables.addCount ht change } := by
  intro sound
  have counted : s.tables.count ht + change = _ :=
    (Function.update_self ht _ _).symm.trans (sound.counted ht)
  have counted_before : s.tables.count ht =
      (if Registered data (s.tables.addCount ht change) ht then 1 else 0) + (s.uses ht : ℤ) :=
    kept.counted ht
  dsimp only at counted
  omega

/-- An attempt to unregister a hwrtype in use, or one that is not the registered
one, takes a use from it that nobody has. -/
theorem unregister_breaks (used : ¬ Unused data s (.unregister ht))
    (taken : Registration.step data s (.unregister ht) = some next) : ¬ Sound data next := by
  obtain ⟨ended, returned, rfl⟩ := Option.map_eq_some_iff.mp taken
  have inside := inside_of_unregistered returned
  simp only [Unused, not_or, not_and] at used
  obtain ⟨ct, place⟩ := Option.ne_none_iff_exists'.mp used.1
  have same := (kept.place _ ct place).1
  have many : s.tables.count ht ≠ 1 := by
    by_cases registered : Registered data s.tables ht
    · have nonzero := used.2 registered
      rw [kept.count_registered registered]
      omega
    · rw [kept.count_other registered]
      decide
  rw [unregisterHwrtype_many inside place same many] at returned
  cases returned
  exact kept.not_sound_addCount (by decide)

theorem get_breaks {cls : UInt16} (missing : ¬ Unused data s (.get cls))
    (taken : Registration.step data s (.get cls) = some next) : ¬ Sound data next := by
  simp only [Unused, not_forall] at missing
  obtain ⟨ht, found, without⟩ := missing
  obtain ⟨place, got⟩ := found_of_get found
  simp only [Registration.step, got, if_neg without, Option.some.injEq] at taken
  subst taken
  exact kept.not_sound_addCount one_ne_zero

theorem breaks {label : Label} (against : ¬ Unused data s label)
    (taken : Registration.step data s label = some next) : ¬ Sound data next := by
  cases label with
  | register ht mem => exact absurd trivial against
  | unregister ht => exact kept.unregister_breaks against taken
  | get cls => exact kept.get_breaks against taken
  | put ht => exact absurd trivial against

end Kept

/-! ## The registry of the loader -/

/-- What the loader sees of the tables. -/
def Tables.toHwState {δ : Type} (t : Tables) (board : Board δ) (calls : List DriverCall) :
    HwState δ where
  hwrtypes cls := (t.hwrtypes cls).map fun ht => ⟨t.count ht⟩
  board := board
  calls := calls

namespace Kept

variable {δ ε : Type} {s : State} (kept : Kept data s)
include kept

/-- A class has a count of its own. -/
theorem toHwState_addCount {cls : UInt16} {ht : Hwrtype}
    (place : s.tables.hwrtypes cls = some ht) (change : ℤ) (board : Board δ)
    (calls : List DriverCall) :
    (s.tables.addCount ht change).toHwState board calls =
      (s.tables.toHwState board calls).setCount cls (s.tables.count ht + change) := by
  simp only [Tables.toHwState, HwState.setCount, HwState.mk.injEq, and_true]
  funext other
  by_cases same : other = cls
  · subst same
    simp [Tables.addCount, place]
  · have ne (ct : Hwrtype) (found : s.tables.hwrtypes other = some ct) : ct ≠ ht := by
      rintro rfl
      exact same ((kept.place other ct found).1.symm.trans (kept.place cls ct place).1)
    cases found : s.tables.hwrtypes other with
    | none => simp [Tables.addCount, found, same]
    | some ct => simp [Tables.addCount, found, same, ne ct found]

/-- The uses that the loader takes and gives up are those counted here. -/
theorem toHwState_getHwrops (drivers : UInt16 → HwrDriver δ ε)
    (addr : HwrAddr) (board : Board δ) (calls : List DriverCall) :
    (Hwr.getHwrops drivers addr (s.tables.toHwState board calls)).2 =
      (getHwrops addr.cls s.tables).2.toHwState board calls := by
  by_cases large : MAX_HWRTYPES ≤ addr.cls
  · simp [Hwr.getHwrops, HwState.lookup, getHwrops, large]
  cases place : s.tables.hwrtypes addr.cls with
  | none => simp [Hwr.getHwrops, HwState.lookup, getHwrops, large, Tables.toHwState, place]
  | some ht =>
      have counted := kept.toHwState_addCount place 1 board calls
      simp [Hwr.getHwrops, HwState.lookup, getHwrops, large, place, counted]
      simp [Tables.toHwState, place]

theorem toHwState_putHwrops (addr : HwrAddr) (board : Board δ) (calls : List DriverCall) :
    Hwr.putHwrops addr (s.tables.toHwState board calls) =
      (putHwrops addr.cls s.tables).toHwState board calls := by
  by_cases large : MAX_HWRTYPES ≤ addr.cls
  · simp [Hwr.putHwrops, HwState.lookup, putHwrops, large]
  cases place : s.tables.hwrtypes addr.cls with
  | none => simp [Hwr.putHwrops, HwState.lookup, putHwrops, large, Tables.toHwState, place]
  | some ht =>
      have counted := kept.toHwState_addCount place (-1) board calls
      simp [Hwr.putHwrops, HwState.lookup, putHwrops, large, place, counted]
      simp [Tables.toHwState, place, sub_eq_add_neg]

end Kept

end Operations

/-! ## Runs -/

/-- The counts are right in every state of a run, and no attempt to unregister
leaves a trace when it fails, exactly when nothing is unregistered while it is in
use or while another hwrtype has its place, and what is got has operations. -/
theorem counts_kept_iff (data : Hwrtype → HwrtypeData) {s final : State} {calls : List Label}
    (initial : Initial s) (finished : run (step data) s calls = some final) :
    (Always (step data) (Sound data) s calls ∧ Along (step data) (FailsClean data) s calls) ↔
      Along (step data) (Unused data) s calls := by
  have kept : Kept data s := initial.kept
  have always_iff : Always (step data) (Sound data) s calls ↔
      Along (step data) (Unused data) s calls :=
    always_iff_along (Kept data) (fun _ kept => kept.sound)
      (fun _ _ _ kept unused taken => kept.step unused taken)
      (fun _ _ _ kept against taken => kept.breaks against taken) kept finished
  rw [always_iff]
  constructor
  · exact And.left
  · intro along
    refine ⟨along, ?_⟩
    exact along.imp (Kept data) (fun _ _ kept unused => kept.failsClean unused)
      (fun _ _ _ kept unused taken => kept.step unused taken) kept

/-- The driver of the RHINO has one device. -/
def rhinoTypes : Hwrtype → HwrtypeData := fun _ => ⟨HAC_RHINO, 1, true⟩

/-- After `hwr_init`. -/
def booted : State where
  tables := ⟨fun _ => none, fun _ => none, fun _ => 0⟩
  uses := fun _ => 0

theorem booted_initial : Initial booted :=
  ⟨fun _ => rfl, fun _ => rfl, fun _ => rfl⟩

/-- All memory is there. -/
def ampleMem : RegisterMem := ⟨true, fun _ => some ⟨0, 0, none⟩⟩

/-- A driver is loaded, used and unloaded. -/
theorem counts_kept_in_turn :
    Always (step rhinoTypes) (Sound rhinoTypes) booted
      [.register 0 ampleMem, .get HAC_RHINO, .put 0, .unregister 0] := by
  obtain ⟨final, finished⟩ : ∃ final, run (step rhinoTypes) booted
      [.register 0 ampleMem, .get HAC_RHINO, .put 0, .unregister 0] = some final := ⟨_, rfl⟩
  refine ((counts_kept_iff rhinoTypes booted_initial finished).mpr ?_).1
  refine ⟨trivial, ?_⟩
  rintro _ ⟨⟩
  refine ⟨fun _ _ => rfl, ?_⟩
  rintro _ ⟨⟩
  refine ⟨trivial, ?_⟩
  rintro _ ⟨⟩
  exact ⟨Or.inr ⟨rfl, rfl⟩, fun _ _ => trivial⟩

/-- The driver cannot be unloaded while it is in use.  The attempt leaves the one
use that there is uncounted. -/
theorem unregister_in_use :
    Initial booted ∧
      ¬ Always (step rhinoTypes) (Sound rhinoTypes) booted
        [.register 0 ampleMem, .get HAC_RHINO, .unregister 0] := by
  refine ⟨booted_initial, ?_⟩
  intro always
  obtain ⟨final, finished, registered, count, uses⟩ : ∃ final, run (step rhinoTypes) booted
      [.register 0 ampleMem, .get HAC_RHINO, .unregister 0] = some final ∧
        Registered rhinoTypes final.tables 0 ∧ final.tables.count 0 = 1 ∧ final.uses 0 = 1 :=
    ⟨_, rfl, rfl, rfl, rfl⟩
  have counted := (always.last _ finished).counted 0
  rw [if_pos registered, count, uses] at counted
  contradiction

end Rhino.Hwr.Registration
