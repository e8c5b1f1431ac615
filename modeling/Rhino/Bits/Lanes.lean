import Mathlib.Algebra.Order.Group.Nat
import Mathlib.Data.List.Basic
import Mathlib.Data.Nat.Bitwise
import Mathlib.Tactic.Ring

/-!
# Words as rows of lanes

A word is taken for a row of lanes of a fixed width, the lowest one first.  With a
mask that has the lower half of every double lane, the sum of a word and the word
shifted down by one lane adds the lanes in pairs, as long as no sum outgrows its
double lane.  Repeated from lanes of one bit on, this counts the bits of the word.
-/

namespace Rhino.Bits

/-- The word with these lanes. -/
def lanes (width : ℕ) : List ℕ → ℕ
  | [] => 0
  | lane :: rest => lane + 2 ^ width * lanes width rest

theorem lanes_cons_div {width lane : ℕ} (small : lane < 2 ^ width) (rest : List ℕ) :
    lanes width (lane :: rest) / 2 ^ width = lanes width rest := by
  rw [lanes, Nat.add_mul_div_left _ _ (Nat.two_pow_pos width), Nat.div_eq_of_lt small,
    Nat.zero_add]

theorem lanes_cons_mod {width lane : ℕ} (small : lane < 2 ^ width) (rest : List ℕ) :
    lanes width (lane :: rest) % 2 ^ width = lane := by
  rw [lanes, Nat.add_mul_mod_self_left, Nat.mod_eq_of_lt small]

theorem lanes_lt {width : ℕ} {row : List ℕ} (small : ∀ lane ∈ row, lane < 2 ^ width) :
    lanes width row < 2 ^ (width * row.length) := by
  induction row with
  | nil => exact Nat.one_pos
  | cons lane rest ih =>
      rw [List.forall_mem_cons] at small
      calc lanes width (lane :: rest)
        _ < 2 ^ width + 2 ^ width * lanes width rest := Nat.add_lt_add_right small.1 _
        _ = 2 ^ width * (lanes width rest + 1) := by ring
        _ ≤ 2 ^ width * 2 ^ (width * rest.length) := Nat.mul_le_mul_left _ (ih small.2)
        _ = 2 ^ (width * (rest.length + 1)) := by ring

/-- The sums of neighbours. -/
def pairSums : List ℕ → List ℕ
  | first :: second :: rest => (first + second) :: pairSums rest
  | rest => rest

/-- The lower half of each of `count` double lanes. -/
def lowMask (width : ℕ) : ℕ → ℕ
  | 0 => 0
  | count + 1 => (2 ^ width - 1) + 2 ^ (2 * width) * lowMask width count

/-- A word and a mask are cut at the same bit. -/
theorem and_add_two_pow_mul {place low : ℕ} (small : low < 2 ^ place) (word high : ℕ) :
    word &&& (low + 2 ^ place * high) =
      (word % 2 ^ place &&& low) + 2 ^ place * (word / 2 ^ place &&& high) := by
  have inside : word % 2 ^ place &&& low < 2 ^ place := Nat.and_lt_two_pow _ small
  apply Nat.eq_of_testBit_eq
  intro k
  rw [Nat.add_comm low, Nat.add_comm (_ &&& low), Nat.testBit_and,
    Nat.testBit_two_pow_mul_add _ small, Nat.testBit_two_pow_mul_add _ inside]
  by_cases below : k < place
  · rw [if_pos below, if_pos below, Nat.testBit_and, Nat.testBit_mod_two_pow, decide_eq_true below,
      Bool.true_and]
  · rw [if_neg below, if_neg below, Nat.testBit_and, Nat.testBit_div_two_pow,
      Nat.sub_add_cancel (Nat.not_lt.mp below)]

/-- The mask keeps the lowest lane of a word and cuts off the lowest pair. -/
theorem and_lowMask_succ (width count word : ℕ) :
    word &&& lowMask width (count + 1) =
      word % 2 ^ width + 2 ^ (2 * width) * (word / 2 ^ (2 * width) &&& lowMask width count) := by
  have small : 2 ^ width - 1 < 2 ^ (2 * width) := by
    have positive : 0 < 2 ^ width := Nat.two_pow_pos width
    have wider : 2 ^ width ≤ 2 ^ (2 * width) := Nat.pow_le_pow_right Nat.two_pos (by omega)
    omega
  rw [lowMask, and_add_two_pow_mul small, Nat.and_two_pow_sub_one_eq_mod,
    Nat.mod_mod_of_dvd _ (pow_dvd_pow 2 (by omega))]

/-- A row added to itself one lane further down, both without the upper lane of each
pair. -/
theorem addPairs_eq {width count : ℕ} {row : List ℕ} (small : ∀ lane ∈ row, lane < 2 ^ width)
    (even : row.length = 2 * count) :
    (lanes width row &&& lowMask width count) +
        (lanes width row >>> width &&& lowMask width count) =
      lanes (2 * width) (pairSums row) := by
  induction count generalizing row with
  | zero =>
      rw [List.length_eq_zero_iff.mp even]
      simp [lanes, pairSums, lowMask]
  | succ count ih =>
      match row, even with
      | first :: second :: rest, even =>
          obtain ⟨first_lt, second_lt, rest_lt⟩ : first < 2 ^ width ∧ second < 2 ^ width ∧
              ∀ lane ∈ rest, lane < 2 ^ width := by
            simpa only [List.forall_mem_cons] using small
          have shifted : lanes width (first :: second :: rest) / 2 ^ width =
              lanes width (second :: rest) := lanes_cons_div first_lt _
          have cut : lanes width (second :: rest) / 2 ^ width = lanes width rest :=
            lanes_cons_div second_lt _
          have double : 2 ^ (2 * width) = 2 ^ width * 2 ^ width := by rw [two_mul, pow_add]
          have tail := ih rest_lt (by simpa [Nat.mul_add] using even)
          rw [Nat.shiftRight_eq_div_pow] at tail ⊢
          rw [and_lowMask_succ, and_lowMask_succ, double, ← Nat.div_div_eq_div_mul,
            ← Nat.div_div_eq_div_mul, shifted, cut, lanes_cons_mod first_lt,
            lanes_cons_mod second_lt]
          calc first + 2 ^ width * 2 ^ width * (lanes width rest &&& lowMask width count) +
                (second + 2 ^ width * 2 ^ width *
                  (lanes width rest / 2 ^ width &&& lowMask width count))
            _ = first + second + 2 ^ (2 * width) * ((lanes width rest &&& lowMask width count) +
                  (lanes width rest / 2 ^ width &&& lowMask width count)) := by
                rw [double]
                ring
            _ = lanes (2 * width) (pairSums (first :: second :: rest)) := by
                rw [tail, pairSums, lanes]

/-! ## Counting bits -/

theorem pairSums_sum (row : List ℕ) : (pairSums row).sum = row.sum := by
  fun_induction pairSums row with
  | case1 first second rest ih =>
      rw [List.sum_cons, ih, List.sum_cons, List.sum_cons, Nat.add_assoc]
  | case2 rest other => rfl

theorem pairSums_length {count : ℕ} {row : List ℕ} (even : row.length = 2 * count) :
    (pairSums row).length = count := by
  fun_induction pairSums row generalizing count with
  | case1 first second rest ih =>
      rw [List.length_cons, List.length_cons] at even
      rw [List.length_cons, @ih (count - 1) (by omega)]
      omega
  | case2 rest other =>
      match rest, other with
      | [], _ =>
          rw [List.length_nil] at even ⊢
          omega
      | [lane], _ =>
          rw [List.length_singleton] at even
          omega
      | first :: second :: rest, other => exact absurd rfl (other first second rest)

/-- No sum is more than twice the largest lane. -/
theorem pairSums_le {bound : ℕ} {row : List ℕ} (small : ∀ lane ∈ row, lane ≤ bound) :
    ∀ lane ∈ pairSums row, lane ≤ 2 * bound := by
  fun_induction pairSums row with
  | case1 first second rest ih =>
      rw [List.forall_mem_cons, List.forall_mem_cons] at small
      rw [List.forall_mem_cons]
      exact ⟨by omega, ih small.2.2⟩
  | case2 rest other =>
      intro lane mem
      have := small lane mem
      omega

/-- A word of `count` lanes, none above `bound`, with a given sum. -/
structure Row (width count bound total word : ℕ) : Prop where
  exists_lanes : ∃ row, lanes width row = word ∧ row.length = count ∧
    (∀ lane ∈ row, lane ≤ bound) ∧ row.sum = total

/-- Adding the lanes in pairs keeps their sum. -/
theorem Row.addPairs {width count bound total word : ℕ}
    (row : Row width (2 * count) bound total word) (fits : bound < 2 ^ width) :
    Row (2 * width) count (2 * bound) total
      ((word &&& lowMask width count) + (word >>> width &&& lowMask width count)) := by
  obtain ⟨items, rfl, length, small, rfl⟩ := row.exists_lanes
  refine ⟨pairSums items, (addPairs_eq ?_ length).symm, pairSums_length length, pairSums_le small,
    pairSums_sum items⟩
  intro lane mem
  exact (small lane mem).trans_lt fits

theorem Row.lt {width count bound total word : ℕ} (row : Row width count bound total word)
    (fits : bound < 2 ^ width) : word < 2 ^ (width * count) := by
  obtain ⟨items, rfl, rfl, small, -⟩ := row.exists_lanes
  exact lanes_lt fun lane mem => (small lane mem).trans_lt fits

/-- A single lane is the word. -/
theorem Row.eq_of_single {width bound total word : ℕ} (row : Row width 1 bound total word) :
    word = total := by
  obtain ⟨items, rfl, length, -, rfl⟩ := row.exists_lanes
  obtain ⟨lane, rfl⟩ := List.length_eq_one_iff.mp length
  simp [lanes]

/-- The number of places where a predicate holds, as a sum of bits. -/
theorem sum_map_toNat {α : Type*} (holds : α → Bool) (places : List α) :
    (places.map fun place => (holds place).toNat).sum = places.countP holds := by
  induction places with
  | nil => rfl
  | cons place rest ih =>
      rw [List.map_cons, List.sum_cons, ih, List.countP_cons, Nat.add_comm]
      cases holds place <;> rfl

theorem lanes_bits {width word : ℕ} (fits : word < 2 ^ width) :
    lanes 1 ((List.range width).map fun k => (word.testBit k).toNat) = word := by
  induction width generalizing word with
  | zero => exact (Nat.lt_one_iff.mp fits).symm
  | succ width ih =>
      have half : word / 2 < 2 ^ width := by
        rw [pow_succ] at fits
        omega
      have upper : ((List.range width).map Nat.succ).map (fun k => (word.testBit k).toNat) =
          (List.range width).map fun k => ((word / 2).testBit k).toNat := by
        rw [List.map_map]
        apply List.map_congr_left
        intro k _
        rw [Function.comp_apply, Nat.testBit_succ]
      rw [List.range_succ_eq_map, List.map_cons, upper, lanes, ih half, Nat.toNat_testBit,
        Nat.pow_zero, Nat.div_one, Nat.pow_one, Nat.mod_add_div]

/-- The bits of a word are lanes of their own. -/
theorem row_bits {width word : ℕ} (fits : word < 2 ^ width) :
    Row 1 width 1 ((List.range width).countP word.testBit) word := by
  refine ⟨_, lanes_bits fits, ?_, ?_, sum_map_toNat word.testBit (List.range width)⟩
  · rw [List.length_map, List.length_range]
  · intro lane mem
    obtain ⟨k, -, rfl⟩ := List.mem_map.mp mem
    exact Bool.toNat_le _

end Rhino.Bits
