import Rhino.Bytes.LittleEndian
import Rhino.Transition.Run

/-!
# Loading a memory piece by piece

A loader fetches one piece after another and stores each behind the one before; it stops
for good at a piece it cannot fetch.  What it leaves in memory is the pieces in their
order, stored at once.
-/

namespace Rhino.Bytes

open Rhino.Transition

universe u v w

variable {α : Type u} {σ : Type v} {τ : Type w}

/-- The pieces of a list of places one after another, if all of them can be fetched. -/
def gather (piece : α → Option (List UInt8)) : List α → Option (List UInt8)
  | [] => some []
  | place :: rest => (piece place).bind fun first => (gather piece rest).map (first ++ ·)

theorem gather_append (piece : α → Option (List UInt8)) (first second : List α) :
    gather piece (first ++ second) =
      (gather piece first).bind fun bytes => (gather piece second).map (bytes ++ ·) := by
  induction first with
  | nil => simp [gather]
  | cons place rest ih =>
      simp only [List.cons_append, gather, ih]
      cases piece place with
      | none => rfl
      | some bytes =>
          cases gather piece rest with
          | none => rfl
          | some more => simp [Function.comp_def]

theorem gather_map {β : Type w} (piece : α → Option (List UInt8)) (place : β → α)
    (labels : List β) : gather piece (labels.map place) = gather (piece ∘ place) labels := by
  induction labels with
  | nil => rfl
  | cons label rest ih => rw [List.map_cons, gather, gather, ih, Function.comp_apply]

theorem gather_eq_some {piece : α → Option (List UInt8)} {bytes : α → List UInt8}
    {places : List α} (fetched : ∀ place ∈ places, piece place = some (bytes place)) :
    gather piece places = some (places.flatMap bytes) := by
  induction places with
  | nil => rfl
  | cons place rest ih =>
      rw [gather, fetched place List.mem_cons_self,
        ih fun other mem => fetched other (List.mem_cons_of_mem _ mem)]
      rfl

theorem gather_length {piece : α → Option (List UInt8)} {size : ℕ}
    (full : ∀ place bytes, piece place = some bytes → bytes.length = size) {places : List α}
    {bytes : List UInt8} (gathered : gather piece places = some bytes) :
    bytes.length = size * places.length := by
  induction places generalizing bytes with
  | nil =>
      cases gathered
      rfl
  | cons place rest ih =>
      obtain ⟨first, fetched, rest_eq⟩ := Option.bind_eq_some_iff.mp gathered
      obtain ⟨more, others, rfl⟩ := Option.map_eq_some_iff.mp rest_eq
      rw [List.length_append, full place first fetched, ih others, List.length_cons,
        Nat.mul_succ, Nat.add_comm]

theorem gather_congr {first second : α → Option (List UInt8)} {places : List α}
    (same : ∀ place ∈ places, first place = second place) :
    gather first places = gather second places := by
  induction places with
  | nil => rfl
  | cons place rest ih =>
      rw [gather, gather, same place List.mem_cons_self,
        ih fun other mem => same other (List.mem_cons_of_mem _ mem)]

theorem gather_flatMap {β : Type w} (piece : α → Option (List UInt8)) (places : β → List α)
    (labels : List β) :
    gather piece (labels.flatMap places) = gather (fun label => gather piece (places label))
      labels := by
  induction labels with
  | nil => rfl
  | cons label rest ih => rw [List.flatMap_cons, gather_append, ih, gather]

/-- The windows of one size give back what they were cut from. -/
theorem flatMap_slice (size count : ℕ) (data : List UInt8) :
    (List.range count).flatMap (fun k => slice (size * k) size data) =
      slice 0 (size * count) data := by
  induction count with
  | zero => rfl
  | succ count ih =>
      rw [List.range_succ, List.flatMap_append, ih, List.flatMap_singleton,
        slice_append_slice (Nat.zero_add _).symm, Nat.mul_succ]

/-- Windows of one size, fetched from places in order. -/
theorem gather_slices {piece : α → Option (List UInt8)} (size : ℕ) {places : List α}
    (data : List UInt8)
    (fetched : ∀ k place, places[k]? = some place →
      piece place = some (slice (size * k) size data)) :
    gather piece places = some (slice 0 (size * places.length) data) := by
  induction places generalizing data with
  | nil => rfl
  | cons place rest ih =>
      have others : ∀ k place, rest[k]? = some place →
          piece place = some (slice (size * k) size (data.drop size)) := by
        intro k place found
        rw [fetched (k + 1) place (by rwa [List.getElem?_cons_succ]), slice, slice, List.drop_drop,
          Nat.mul_succ, Nat.add_comm]
      have behind : slice 0 (size * rest.length) (data.drop size) =
          slice size (size * rest.length) data := rfl
      rw [gather, fetched 0 place rfl, ih _ others, Option.bind_some, Option.map_some, behind,
        Nat.mul_zero, slice_append_slice (Nat.zero_add _).symm, List.length_cons, Nat.mul_succ,
        Nat.add_comm]

/-- What was fetched from each place is its window of the whole. -/
theorem slice_of_gather {piece : α → Option (List UInt8)} (size : ℕ)
    (full : ∀ place bytes, piece place = some bytes → bytes.length = size) {places : List α}
    {data : List UInt8} (gathered : gather piece places = some data) {k : ℕ} {place : α}
    (found : places[k]? = some place) : piece place = some (slice (size * k) size data) := by
  induction places generalizing data k with
  | nil => simp at found
  | cons head rest ih =>
      obtain ⟨first, fetched, rest_eq⟩ := Option.bind_eq_some_iff.mp gathered
      obtain ⟨more, others, rfl⟩ := Option.map_eq_some_iff.mp rest_eq
      have length := full head first fetched
      cases k with
      | zero =>
          obtain rfl : head = place := Option.some.inj found
          rw [fetched, ← length, Nat.mul_zero, slice_zero_append]
      | succ k =>
          rw [List.getElem?_cons_succ] at found
          rw [ih others found, slice_append_right (by rw [length, Nat.mul_succ]; omega), length,
            Nat.mul_succ, Nat.add_sub_cancel]

theorem gather_eq_none {piece : α → Option (List UInt8)} {places : List α} {place : α}
    (mem : place ∈ places) (missing : piece place = none) : gather piece places = none := by
  induction places with
  | nil => cases mem
  | cons head rest ih =>
      rw [gather]
      rcases List.mem_cons.mp mem with rfl | behind
      · rw [missing]
        rfl
      · rw [ih behind]
        cases piece head with
        | none => rfl
        | some first => rfl

/-- A loader that advances its pointer by what it has fetched. -/
theorem run_store (piece : α → Option (List UInt8)) (start : ℕ) (memory : ℕ → UInt8)
    (places : List α) :
    run (fun (state : ℕ × (ℕ → UInt8)) place => (piece place).map fun bytes =>
        (state.1 + bytes.length, storeAt state.2 state.1 bytes)) (start, memory) places =
      (gather piece places).map fun bytes =>
        (start + bytes.length, storeAt memory start bytes) := by
  induction places generalizing start memory with
  | nil => simp [run, gather]
  | cons place rest ih =>
      rw [run, gather]
      cases piece place with
      | none => rfl
      | some bytes =>
          rw [Option.map_some, Option.bind_some, ih, Option.bind_some, Option.map_map]
          congr 1
          funext more
          rw [storeAt_storeAt, Function.comp_apply, List.length_append, Nat.add_assoc]

/-- A loader whose pieces all have one size. -/
theorem run_store_range (piece : ℕ → Option (List UInt8)) {size : ℕ}
    (full : ∀ place bytes, piece place = some bytes → bytes.length = size) (start : ℕ)
    (memory : ℕ → UInt8) (count : ℕ) :
    run (fun memory place => (piece place).map (storeAt memory (start + size * place))) memory
        (List.range count) =
      (gather piece (List.range count)).map (storeAt memory start) := by
  suffices onward : ∀ first memory,
      run (fun memory place => (piece place).map (storeAt memory (start + size * place))) memory
          (List.range' first count) =
        (gather piece (List.range' first count)).map (storeAt memory (start + size * first)) by
    rw [List.range_eq_range']
    exact onward 0 memory
  induction count with
  | zero => simp [run, gather]
  | succ count ih =>
      intro first memory
      rw [List.range'_succ, run, gather]
      cases fetched : piece first with
      | none => rfl
      | some bytes =>
          have next : start + size * (first + 1) = start + size * first + bytes.length := by
            rw [full first bytes fetched, Nat.mul_succ, Nat.add_assoc]
          rw [Option.map_some, Option.bind_some, ih, Option.bind_some, Option.map_map, next]
          congr 1
          funext more
          exact storeAt_storeAt memory _ bytes more

/-- What the turns of a loop keep, for the labels it runs over. -/
theorem run_kept {step : σ → α → Option σ} (relied : σ → Prop) {labels : List α}
    (kept : ∀ state, ∀ label ∈ labels, ∀ next, relied state → step state label = some next →
      relied next)
    {state final : σ} (initial : relied state) (finished : run step state labels = some final) :
    relied final := by
  induction labels generalizing state with
  | nil =>
      cases finished
      exact initial
  | cons label rest ih =>
      obtain ⟨next, taken, finished⟩ := (run_cons_eq_some_iff step).mp finished
      exact ih (fun state other mem => kept state other (List.mem_cons_of_mem _ mem))
        (kept state label List.mem_cons_self next initial taken) finished

/-- A loop seen through what its turns make of a part of the state, as long as the rest keeps
what they rely on. -/
theorem run_map {step : σ → α → Option σ} {seen : τ → α → Option τ} (view : σ → τ)
    (relied : σ → Prop) {labels : List α}
    (kept : ∀ state, ∀ label ∈ labels, ∀ next, relied state → step state label = some next →
      relied next)
    (commutes : ∀ state, ∀ label ∈ labels, relied state →
      (step state label).map view = seen (view state) label)
    {state : σ} (initial : relied state) :
    (run step state labels).map view = run seen (view state) labels := by
  induction labels generalizing state with
  | nil => rfl
  | cons label rest ih =>
      rw [run, run, ← commutes state label List.mem_cons_self initial]
      cases taken : step state label with
      | none => rfl
      | some next =>
          exact ih (fun state other mem => kept state other (List.mem_cons_of_mem _ mem))
            (fun state other mem => commutes state other (List.mem_cons_of_mem _ mem))
            (kept state label List.mem_cons_self next initial taken)

end Rhino.Bytes
