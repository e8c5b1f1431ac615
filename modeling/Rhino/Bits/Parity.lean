import Mathlib.Data.List.Basic
import Mathlib.Data.Nat.Bitwise
import Mathlib.Logic.Function.Basic

/-!
# Parities of addressed bits

A block has a bit at each address of `n` bits.  For every bit of the address it has
two parities: the one over the addresses that have this bit clear and the one over
those that have it set.  An error that flips a bit of the block changes one parity of
each pair, and the parities that it changes spell its address.  Of two errors each
changes a pair as a whole or not at all, according to whether their addresses agree.
-/

namespace Rhino.Bits

section Parity

variable {α : Type*}

/-- The parity of the bits at some places. -/
def parity (places : List α) (bits : α → Bool) : Bool :=
  places.foldr (fun place rest => xor (bits place) rest) false

@[simp]
theorem parity_cons (place : α) (places : List α) (bits : α → Bool) :
    parity (place :: places) bits = xor (bits place) (parity places bits) :=
  rfl

theorem parity_congr {places : List α} {first second : α → Bool}
    (same : ∀ place ∈ places, first place = second place) :
    parity places first = parity places second := by
  induction places with
  | nil => rfl
  | cons place rest ih =>
      rw [List.forall_mem_cons] at same
      rw [parity_cons, parity_cons, same.1, ih same.2]

theorem parity_false (places : List α) : parity places (fun _ => false) = false := by
  induction places with
  | nil => rfl
  | cons place rest ih => rw [parity_cons, ih, Bool.false_xor]

theorem parity_xor (places : List α) (first second : α → Bool) :
    parity places (fun place => xor (first place) (second place)) =
      xor (parity places first) (parity places second) := by
  induction places with
  | nil => rfl
  | cons place rest ih =>
      rw [parity_cons, parity_cons, parity_cons, ih, Bool.xor_assoc, Bool.xor_assoc,
        Bool.xor_left_comm (second place)]

variable [DecidableEq α]

theorem parity_single {places : List α} (nodup : places.Nodup) (place : α) :
    parity places (fun other => decide (other = place)) = decide (place ∈ places) := by
  induction places with
  | nil => rfl
  | cons first rest ih =>
      rw [List.nodup_cons] at nodup
      rw [parity_cons, ih nodup.2]
      by_cases here : first = place
      · subst here
        simp [nodup.1]
      · simp [here, Ne.symm here]

/-- The bits with the one at a place flipped. -/
def flipped (bits : α → Bool) (place : α) : α → Bool :=
  fun other => xor (bits other) (decide (other = place))

theorem parity_flipped {places : List α} (nodup : places.Nodup) (bits : α → Bool) (place : α) :
    parity places (flipped bits place) = xor (parity places bits) (decide (place ∈ places)) := by
  rw [← parity_single nodup]
  exact parity_xor places bits _

end Parity

/-! ## Pairs of parities -/

/-- The addresses of `width` bits whose bit `k` is clear. -/
def clearAt (width k : ℕ) : List ℕ :=
  (List.range (2 ^ width)).filter fun addr => !addr.testBit k

/-- The addresses of `width` bits whose bit `k` is set. -/
def setAt (width k : ℕ) : List ℕ :=
  (List.range (2 ^ width)).filter fun addr => addr.testBit k

def evenParity (width : ℕ) (bits : ℕ → Bool) (k : ℕ) : Bool :=
  parity (clearAt width k) bits

def oddParity (width : ℕ) (bits : ℕ → Bool) (k : ℕ) : Bool :=
  parity (setAt width k) bits

section Pairs

variable {width addr : ℕ} (inside : addr < 2 ^ width) (bits : ℕ → Bool) (k : ℕ)

include inside

theorem evenParity_flipped :
    evenParity width (flipped bits addr) k = xor (evenParity width bits k) (!addr.testBit k) := by
  rw [evenParity, clearAt, parity_flipped (List.nodup_range.filter _)]
  simp [evenParity, clearAt, inside]

theorem oddParity_flipped :
    oddParity width (flipped bits addr) k = xor (oddParity width bits k) (addr.testBit k) := by
  rw [oddParity, setAt, parity_flipped (List.nodup_range.filter _)]
  simp [oddParity, setAt, inside]

end Pairs

/-! ## Distance of addresses -/

/-- The number of bits in which two addresses differ. -/
def distance (width first second : ℕ) : ℕ :=
  (List.range width).countP fun k => xor (first.testBit k) (second.testBit k)

theorem distance_eq_width_iff {width first second : ℕ} :
    distance width first second = width ↔
      ∀ k < width, (first.testBit k ^^ second.testBit k) = true := by
  have all : distance width first second = (List.range width).length ↔ _ := List.countP_eq_length
  simpa only [List.length_range, List.mem_range] using all

/-- Different addresses differ in some bit. -/
theorem distance_pos {width first second : ℕ} (firstInside : first < 2 ^ width)
    (secondInside : second < 2 ^ width) (ne : first ≠ second) :
    0 < distance width first second := by
  rw [distance, List.countP_pos_iff]
  by_contra agree
  apply ne
  apply Nat.eq_of_testBit_eq
  intro k
  by_cases lt : k < width
  · by_contra differ
    exact agree ⟨k, List.mem_range.mpr lt, by simpa using differ⟩
  · have large : 2 ^ width ≤ 2 ^ k := Nat.pow_le_pow_right Nat.two_pos (Nat.not_lt.mp lt)
    rw [Nat.testBit_lt_two_pow (firstInside.trans_le large),
      Nat.testBit_lt_two_pow (secondInside.trans_le large)]

/-- A bit and its complement are one of each pair. -/
theorem countP_not_add_countP (bits : ℕ → Bool) (width : ℕ) :
    (List.range width).countP (fun k => !bits k) + (List.range width).countP bits = width := by
  have complement : (fun k => !bits k) = fun k => decide ¬ bits k = true := by
    funext k
    cases bits k <;> rfl
  rw [complement, Nat.add_comm, ← List.length_eq_countP_add_countP, List.length_range]

theorem parity_filter {α : Type*} (places : List α) (chosen bits : α → Bool) :
    xor (parity (places.filter fun place => !chosen place) bits)
        (parity (places.filter chosen) bits) = parity places bits := by
  induction places with
  | nil => rfl
  | cons place rest ih =>
      rw [parity_cons, ← ih]
      cases out : chosen place
      · rw [List.filter_cons_of_pos (by simp [out]), List.filter_cons_of_neg (by simp [out]),
          parity_cons, Bool.xor_assoc]
      · rw [List.filter_cons_of_neg (by simp [out]), List.filter_cons_of_pos (by simp [out]),
          parity_cons, Bool.xor_left_comm]

/-- The two parities of a pair make up the parity of the block. -/
theorem evenParity_xor_oddParity (width : ℕ) (bits : ℕ → Bool) (k : ℕ) :
    xor (evenParity width bits k) (oddParity width bits k) =
      parity (List.range (2 ^ width)) bits :=
  parity_filter _ _ _

/-! ## Blocks of ones -/

theorem parity_append {α : Type*} (first second : List α) (bits : α → Bool) :
    parity (first ++ second) bits = xor (parity first bits) (parity second bits) := by
  induction first with
  | nil => rw [List.nil_append, show parity [] bits = false from rfl, Bool.false_xor]
  | cons place rest ih => rw [List.cons_append, parity_cons, parity_cons, ih, Bool.xor_assoc]

theorem parity_map {α β : Type*} (place : β → α) (labels : List β) (bits : α → Bool) :
    parity (labels.map place) bits = parity labels (fun label => bits (place label)) := by
  induction labels with
  | nil => rfl
  | cons label rest ih => rw [List.map_cons, parity_cons, parity_cons, ih]

/-- Both halves of the addresses have the same parity. -/
theorem parity_halves {width : ℕ} {chosen : ℕ → Bool}
    (same : ∀ addr < 2 ^ width, chosen (2 ^ width + addr) = chosen addr) :
    parity ((List.range (2 ^ (width + 1))).filter chosen) (fun _ => true) = false := by
  have upper : ((List.range (2 ^ width)).map (2 ^ width + ·)).filter chosen =
      ((List.range (2 ^ width)).filter chosen).map (2 ^ width + ·) := by
    rw [List.filter_map]
    congr 1
    apply List.filter_congr
    intro addr mem
    exact same addr (List.mem_range.mp mem)
  rw [Nat.pow_succ, Nat.mul_two, List.range_add, List.filter_append, parity_append, upper,
    parity_map, Bool.xor_self]

theorem parity_range_true (width : ℕ) :
    parity (List.range (2 ^ (width + 1))) (fun _ => true) = false := by
  have all := @parity_halves width (fun _ => true) (fun _ _ => rfl)
  rwa [List.filter_true] at all

/-- In a block of ones all parities are clear. -/
theorem evenParity_true (width : ℕ) {k : ℕ} (inside : k < width + 2) :
    evenParity (width + 2) (fun _ => true) k = false := by
  unfold evenParity clearAt
  by_cases top : k = width + 1
  · have low : (List.range (2 ^ (width + 2))).filter (fun addr => !addr.testBit k) =
        List.range (2 ^ (width + 1)) := by
      rw [Nat.pow_succ 2 (width + 1), Nat.mul_two, List.range_add, List.filter_append,
        List.filter_eq_self.mpr, List.filter_eq_nil_iff.mpr, List.append_nil]
      · intro addr mem
        obtain ⟨rest, lt, rfl⟩ := List.mem_map.mp mem
        rw [top, Nat.testBit_two_pow_add_eq, Nat.testBit_lt_two_pow (List.mem_range.mp lt)]
        decide
      · intro addr mem
        rw [top, Nat.testBit_lt_two_pow (List.mem_range.mp mem)]
        rfl
    rw [low]
    exact parity_range_true width
  · apply parity_halves
    intro addr _
    rw [Nat.testBit_two_pow_add_gt (by omega)]

theorem oddParity_true (width : ℕ) {k : ℕ} (inside : k < width + 2) :
    oddParity (width + 2) (fun _ => true) k = false := by
  unfold oddParity setAt
  by_cases top : k = width + 1
  · have high : (List.range (2 ^ (width + 2))).filter (fun addr => addr.testBit k) =
        (List.range (2 ^ (width + 1))).map (2 ^ (width + 1) + ·) := by
      rw [Nat.pow_succ 2 (width + 1), Nat.mul_two, List.range_add, List.filter_append,
        List.filter_eq_nil_iff.mpr, List.filter_eq_self.mpr, List.nil_append]
      · intro addr mem
        obtain ⟨rest, lt, rfl⟩ := List.mem_map.mp mem
        rw [top, Nat.testBit_two_pow_add_eq, Nat.testBit_lt_two_pow (List.mem_range.mp lt)]
        decide
      · intro addr mem
        rw [top, Nat.testBit_lt_two_pow (List.mem_range.mp mem)]
        decide
    rw [high, parity_map]
    exact parity_range_true width
  · apply parity_halves
    intro addr _
    rw [Nat.testBit_two_pow_add_gt (by omega)]

end Rhino.Bits
