import Rhino.Ioreg.Raw

/-!
# Counts

A read that is asked for a number of bytes should not copy more to the user,
and a call should not report more than it was asked for.  Three ways through
the register file operations do: a read in text mode is cut to a number of
digits and a newline is added after the cut; a write in text mode reports the
four bytes that it has sent, whatever the length of the text; and a raw write to
a register of 2^31 bytes or more takes the rest of the register for its count.
-/

namespace Rhino.Ioreg

open Rhino.Bof Rhino.Bytes Rhino.Kernel Rhino.Loader

variable {β : Type} (bus : Bus β) (map : FpgaMap)

/-- A read in text mode has room for the eight digits and not for the newline. -/
def Overread (reg : Ioreg) (mode : ℤ) (count : ℕ) (p : ℤ) : Prop :=
  mode = 0 ∧ count = 8 ∧ p + 8 ≤ regblen 0 reg

/-- A write reports the bytes of a number, or of a long register, as its count. -/
def Overreport (reg : Ioreg) (mode : ℤ) (env : IoEnv) (count : ℕ) (p : ℤ) : Prop :=
  p < reg.len.toNat ∧
    (mode ≠ 1 ∧ count < 4 ∧ TextAccepted env count p ∨
      mode = 1 ∧ env.fault = false ∧ 2 ^ 31 ≤ reg.len.toNat ∧
        count < 2 * (min (reg.len.toNat - p.toNat) IOBUF_SIZE / 2))

@[simp]
theorem hexDigits_length (value digits : ℕ) : (hexDigits value digits).length = digits := by
  induction digits generalizing value with
  | zero => rfl
  | succ digits ih => rw [hexDigits, List.length_append, ih, List.length_singleton]

/-- What a read that gets through to the buffer hands out. -/
theorem readIobuf_within_iff {reg : Ioreg} {mode : ℤ} {count fcount : ℕ} {p : ℤ}
    (accepted : rwVerifyArea count p = some fcount) (s : IoState β)
    (inside : ¬ (regblen mode reg < p + fcount ∧ regblen mode reg ≤ p)) :
    let r := readIobuf bus map reg mode (cappedCount mode reg fcount p) p s
    (r.copied.length ≤ count ∧ r.retval ≤ count) ↔ ¬ Overread reg mode count p := by
  intro r
  have asked := le_of_rwVerifyArea accepted
  have capped := cappedCount_eq_min mode reg fcount p
  by_cases raw : mode ≠ 0
  · have exact : r.retval = (2 * (cappedCount mode reg fcount p / 2) : ℕ) ∧
        r.copied.length = 2 * (cappedCount mode reg fcount p / 2) := by
      simp only [r, readIobuf_raw bus map reg raw]
      exact ⟨trivial, recvWords_length _ _ _ _⟩
    rw [exact.1, exact.2]
    exact iff_of_true ⟨by omega, by omega⟩ fun excess => raw excess.1
  · rcases not_not.mp raw with rfl
    have whole : cappedCount 0 reg fcount p / 2 / 2 = 2 ∧ count = 8 ↔ Overread reg 0 count p := by
      constructor
      · rintro ⟨word, rfl⟩
        rw [eq_of_rwVerifyArea accepted (by decide), cappedCount_of_le 0 reg (by decide)] at word
        exact ⟨rfl, rfl, by omega⟩
      · rintro ⟨-, rfl, room⟩
        rw [eq_of_rwVerifyArea accepted (by decide), cappedCount_of_le 0 reg (by decide)]
        exact ⟨by omega, rfl⟩
    simp only [r, readIobuf_text]
    split
    · rename_i word
      simp only [List.length_append, hexDigits_length, List.length_singleton, ← whole, word,
        true_and]
      omega
    · rename_i other
      have error : -einval ≤ count := le_trans (by decide) (Int.natCast_nonneg count)
      exact iff_of_true ⟨Nat.zero_le _, error⟩ fun excess => other (whole.mpr excess).1

/-- A read keeps to its count unless it is one of eight digits that are there. -/
theorem read_within_iff (reg : Ioreg) (mode : ℤ) (env : IoEnv) (own : Bool) {count fcount : ℕ}
    {p : ℤ} (accepted : rwVerifyArea count p = some fcount) (s : IoState β) :
    let r := ioregRegRead bus map reg mode env own fcount p s
    (r.copied.length ≤ count ∧ r.retval ≤ count) ↔
      (Served reg own env → ¬ Overread reg mode count p) := by
  intro r
  by_cases served : Served reg own env
  · have read := ioregRegRead_of_served bus map served mode fcount p s
    simp only [served, true_implies, r, read]
    split
    · rename_i ends
      refine iff_of_true ⟨Nat.zero_le _, Int.natCast_nonneg count⟩ ?_
      rintro ⟨rfl, eight, room⟩
      omega
    · rename_i inside
      exact readIobuf_within_iff bus map accepted s inside
  · rcases ioregRegRead_of_not_served bus map served mode fcount p s with ⟨idle, retval⟩
    have refused : r.retval ≤ 0 := by
      rw [retval]
      split <;> decide
    rw [idle.copied_eq]
    exact iff_of_true ⟨Nat.zero_le _, refused.trans (Int.natCast_nonneg count)⟩
      fun reached => absurd reached served

/-! ## Writing -/

/-- A raw write to a register of 2^31 bytes or more takes the rest of the register
for its count. -/
theorem rawCount_of_long {reg : Ioreg} (long : 2 ^ 31 ≤ reg.len.toNat) (fcount : ℕ) {fpos : ℤ}
    (nonnegative : 0 ≤ fpos) (below : fpos < reg.len.toNat) :
    rawCount reg fcount fpos = min (reg.len.toNat - fpos.toNat) IOBUF_SIZE := by
  have rest := toNat_ofInt_rest reg nonnegative below
  have negative : toS32 reg.len.toNat < 0 := by
    have := reg.len.toNat_lt
    simp only [toS32, wrapSigned]
    omega
  apply rawCount_eq_min
  rw [if_pos (by omega)]
  omega

/-- A write keeps to its count unless it is one of a short number or to a long
register. -/
theorem write_within_iff (reg : Ioreg) (mode : ℤ) (env : IoEnv) (own : Bool) {count fcount : ℕ}
    {p : ℤ} (accepted : rwVerifyArea count p = some fcount) (s : IoState β) :
    (ioregRegWrite bus map reg mode env own fcount p s).retval ≤ count ↔
      (Served reg own env → ¬ Overreport reg mode env count p) := by
  have asked := le_of_rwVerifyArea accepted
  have nonnegative := nonneg_of_rwVerifyArea accepted
  have error : -einval ≤ count := le_trans (by decide) (Int.natCast_nonneg count)
  by_cases below : p < reg.len.toNat
  · by_cases served : Served reg own env
    · simp only [served, true_implies, Overreport, below, true_and]
      by_cases raw : mode = 1
      · rcases raw with rfl
        rw [ioregRegWrite_raw bus map served below]
        cases fault : env.fault with
        | true => simpa [Call.leave] using error
        | false =>
            simp only [Bool.false_eq_true, if_false, writeIobuf_eq, ne_eq, not_true, false_and,
              true_and, false_or]
            by_cases long : 2 ^ 31 ≤ reg.len.toNat
            · rw [rawCount_of_long long fcount nonnegative below]
              simp only [long, true_and]
              omega
            · rw [rawCount_eq (not_le.mp long) fcount nonnegative below, rawCut]
              simp only [long, false_and, not_false_iff, iff_true]
              omega
      · rw [ioregRegWrite_text bus map served raw below]
        simp only [raw, ne_eq, not_false_iff, true_and, false_and, or_false]
        by_cases few : count < 4
        · have same : fcount = count :=
            eq_of_rwVerifyArea accepted (few.le.trans (by decide))
          rw [same]
          by_cases text : TextAccepted env count p
          · rw [if_pos text, writeIobuf_eq]
            simp only [few, text, and_self, not_true, iff_false]
            omega
          · rw [if_neg text]
            exact iff_of_true error fun excess => text excess.2
        · refine iff_of_true ?_ fun excess => few excess.1
          split
          · rw [writeIobuf_eq]
            simp only
            omega
          · exact error
    · have refused := (ioregRegWrite_of_not_served bus map served below mode fcount s).2
      exact iff_of_true (by omega) fun reached => absurd reached served
  · have reported := (ioregRegWrite_of_beyond bus map (not_lt.mp below) mode env own fcount s).2
    exact iff_of_true (by omega) fun _ excess => below excess.1

/-- The calls keep to the count that they are given, unless they get through to
the buffer and the read has no room for its newline, or the write reports the
length of what it has sent instead of what it was given. -/
theorem counts_respected_iff (reg : Ioreg) (mode : ℤ) (env : IoEnv) (own : Bool)
    {count fcount : ℕ} {p : ℤ} (accepted : rwVerifyArea count p = some fcount) (s : IoState β) :
    let r := ioregRegRead bus map reg mode env own fcount p s
    let w := ioregRegWrite bus map reg mode env own fcount p s
    (r.copied.length ≤ count ∧ r.retval ≤ count ∧ w.retval ≤ count) ↔
      (Served reg own env → ¬ Overread reg mode count p ∧ ¬ Overreport reg mode env count p) := by
  intro r w
  rw [← and_assoc, imp_and]
  exact and_congr (read_within_iff bus map reg mode env own accepted s)
    (write_within_iff bus map reg mode env own accepted s)

/-- Two raw bytes of `reg_led`. -/
theorem counts_respected_led :
    let r := ioregRegRead idleBus sampleMap regLed 1 writesOne false 2 0 ⟨(), []⟩
    let w := ioregRegWrite idleBus sampleMap regLed 1 writesOne false 2 0 ⟨(), []⟩
    r.copied.length ≤ 2 ∧ r.retval ≤ (2 : ℕ) ∧ w.retval ≤ (2 : ℕ) := by
  apply (counts_respected_iff idleBus sampleMap regLed 1 writesOne false
    (by decide : rwVerifyArea 2 0 = some 2) ⟨(), []⟩).mpr
  intro _
  constructor
  · exact fun excess => absurd excess.1 (by decide)
  · rintro ⟨-, text | long⟩
    · exact text.1 rfl
    · exact absurd long.2.2.1 (by decide)

/-- The register `reg_word` of `gpmc_test_top.sym`: four bytes. -/
def regWord : Ioreg where
  strtab := []
  name := 0
  mode := 3
  loc := 0x0A000000
  len := 4
  hwraddr := ⟨0, 0⟩

/-- A read of eight bytes in text mode copies nine. -/
theorem read_of_eight_copies_nine :
    rwVerifyArea 8 0 = some 8 ∧
      (ioregRegRead idleBus sampleMap regWord 0 writesOne false 8 0 ⟨(), []⟩).copied.length = 9 ∧
      (ioregRegRead idleBus sampleMap regWord 0 writesOne false 8 0 ⟨(), []⟩).retval = 9 := by
  decide

end Rhino.Ioreg
