import Rhino.Bytes.LittleEndian
import Mathlib.Data.PNat.Notation

/-!
# Reading a file from the kernel

`kernel_read` of `fs/exec.c` goes through `vfs_read`.  What it returns depends
on the layers below it, so every call is given a `ReadIo` that says what they do
with it: fail, or deliver at most so many bytes.  The count test and the cap of
`rw_verify_area` come first and do not depend on those layers.
-/

namespace Rhino.Kernel

open Rhino.Bytes

def enoent : ℤ := 2

def eio : ℤ := 5

def enoexec : ℤ := 8

def efault : ℤ := 14

def ebusy : ℤ := 16

def einval : ℤ := 22

def espipe : ℤ := 29

theorem neg_eio_lt_zero : -eio < 0 := by decide

theorem neg_enoexec_lt_zero : -enoexec < 0 := by decide

theorem neg_ebusy_lt_zero : -ebusy < 0 := by decide

/-- The contents of an open file. -/
abbrev File := List UInt8

/-- What the layers below the VFS do with one read. -/
inductive ReadIo where
  | error (errno : ℕ+)
  | upTo (limit : ℕ)
  deriving DecidableEq

/-- The layers below fail the read. -/
def ReadIo.fails : ReadIo → Bool
  | .error _ => true
  | .upTo _ => false

/-- `INT_MAX & PAGE_CACHE_MASK`, the most that one call transfers. -/
def MAX_RW_COUNT : ℕ := 0x7ffff000

/-- The layers below fail the read or deliver what the file has. -/
def ReadIo.Whole : ReadIo → Prop
  | .error _ => True
  | .upTo limit => MAX_RW_COUNT ≤ limit

/-- `kernel_read`: the value it returns and the bytes it has stored at the
front of the caller's buffer.  A count that is negative as a `ssize_t` is
refused. -/
def kernelRead (file : File) (io : ReadIo) (offset count : ℕ) : ℤ × List UInt8 :=
  if 2 ^ 31 ≤ count then
    (-einval, [])
  else
    match io with
    | .error errno => (-(errno : ℤ), [])
    | .upTo limit =>
        let bytes := (slice offset (min count MAX_RW_COUNT) file).take limit
        (bytes.length, bytes)

/-- A read of bytes that are there, served in full. -/
theorem kernelRead_served {file : File} {limit offset count : ℕ} (small : count ≤ MAX_RW_COUNT)
    (served : count ≤ limit) (inside : offset + count ≤ file.length) :
    kernelRead file (.upTo limit) offset count = ((count : ℤ), slice offset count file) := by
  have length_eq : (slice offset count file).length = count := by
    rw [slice_length]
    omega
  have accepted : ¬ 2 ^ 31 ≤ count := by
    rw [MAX_RW_COUNT] at small
    omega
  simp only [kernelRead, if_neg accepted, min_eq_left small]
  rw [List.take_of_length_le (length_eq.trans_le served), length_eq]

/-- A read never delivers more than it was asked for. -/
theorem kernelRead_length_le (file : File) (io : ReadIo) (offset count : ℕ) :
    (kernelRead file io offset count).2.length ≤ count := by
  unfold kernelRead
  split
  · exact Nat.zero_le count
  · cases io with
    | error errno => exact Nat.zero_le count
    | upTo limit =>
        simp only [List.length_take, slice_length]
        omega

/-- The value that a read returns, if it does not fail, is the number of bytes that
it delivers. -/
theorem kernelRead_fst_eq {file : File} {io : ReadIo} {offset count : ℕ}
    (nonnegative : 0 ≤ (kernelRead file io offset count).1) :
    (kernelRead file io offset count).1 = (kernelRead file io offset count).2.length := by
  unfold kernelRead at nonnegative ⊢
  split
  · rename_i refused
    rw [if_pos refused] at nonnegative
    exact absurd nonnegative (by decide)
  · rename_i accepted
    rw [if_neg accepted] at nonnegative
    cases io with
    | error errno =>
        have positive := errno.pos
        simp only at nonnegative
        omega
    | upTo limit => rfl

/-- The front of what a read delivers stands in the file from its offset on. -/
theorem slice_zero_kernelRead {file : File} {io : ReadIo} {offset count n : ℕ}
    (enough : n ≤ (kernelRead file io offset count).2.length) :
    slice 0 n (kernelRead file io offset count).2 = slice offset n file := by
  unfold kernelRead at enough ⊢
  split
  · rename_i refused
    rw [if_pos refused] at enough
    rw [Nat.le_zero.mp enough]
    rfl
  · rename_i accepted
    rw [if_neg accepted] at enough
    cases io with
    | error errno =>
        rw [Nat.le_zero.mp enough]
        rfl
    | upTo limit =>
        simp only [slice, List.drop_zero, List.take_take, List.length_take] at enough ⊢
        congr 1
        omega

/-- The `count` bytes from `offset` on are in the file. -/
def Inside (file : File) (offset count : ℕ) : Prop :=
  ∀ k < count, offset + k < file.length

/-- What a read delivers is in the file. -/
theorem kernelRead_inside (file : File) (io : ReadIo) (offset count : ℕ) :
    Inside file offset (kernelRead file io offset count).2.length := by
  intro k lt
  unfold kernelRead at lt
  split at lt
  · contradiction
  · cases io with
    | error errno => contradiction
    | upTo limit =>
        simp only [List.length_take, slice_length] at lt
        omega

/-- A read that returns the count it was asked for has delivered the bytes that
stand in the file, all of them. -/
theorem kernelRead_full {file : File} {io : ReadIo} {offset count : ℕ}
    (full : (kernelRead file io offset count).1 = count) :
    (kernelRead file io offset count).2 = slice offset count file ∧
      (slice offset count file).length = count := by
  by_cases refused : 2 ^ 31 ≤ count
  · simp only [kernelRead, if_pos refused, einval] at full
    omega
  · cases io with
    | error errno =>
        have positive := errno.pos
        simp only [kernelRead, if_neg refused] at full
        omega
    | upTo limit =>
        simp only [kernelRead, if_neg refused, Nat.cast_inj] at full ⊢
        have uncapped : count ≤ MAX_RW_COUNT := by
          rw [List.length_take, slice_length] at full
          omega
        rw [min_eq_left uncapped] at full ⊢
        have whole : (slice offset count file).length ≤ limit := by
          rw [List.length_take, slice_length] at full
          rw [slice_length]
          omega
        rw [List.take_of_length_le whole] at full ⊢
        exact ⟨rfl, full⟩

/-- The range of a read is in the file, and whatever the buffer held before, it holds
the bytes of that range afterwards. -/
structure Supplied (file : File) (io : ReadIo) (offset count : ℕ) : Prop where
  inside : Inside file offset count
  bytes : ∀ old : List UInt8, old.length = count →
    overlay (kernelRead file io offset count).2 old = slice offset count file

/-- The file supplies what a read is asked for exactly if the read returns that
count. -/
theorem supplied_iff {file : File} {io : ReadIo} {offset count : ℕ}
    (nonnegative : 0 ≤ (kernelRead file io offset count).1) :
    Supplied file io offset count ↔ (kernelRead file io offset count).1 = count := by
  constructor
  · intro supplied
    -- A short read shows in two buffers with different contents.
    have zeros := supplied.bytes (List.replicate count 0) List.length_replicate
    have ones := supplied.bytes (List.replicate count 1) List.length_replicate
    have rest : List.replicate (count - (kernelRead file io offset count).2.length) (0 : UInt8) =
        List.replicate (count - (kernelRead file io offset count).2.length) 1 := by
      simpa only [overlay, List.drop_replicate, List.append_cancel_left_eq]
        using zeros.trans ones.symm
    have none : count - (kernelRead file io offset count).2.length = 0 := by
      by_contra some
      rw [List.replicate_right_inj some] at rest
      exact absurd rest (by decide)
    have most := kernelRead_length_le file io offset count
    rw [kernelRead_fst_eq nonnegative]
    exact congrArg Nat.cast (le_antisymm most (Nat.sub_eq_zero_iff_le.mp none))
  · intro full
    rcases kernelRead_full full with ⟨bytes_eq, length_eq⟩
    constructor
    · rw [← length_eq, ← bytes_eq]
      exact kernelRead_inside file io offset count
    · intro old same
      rw [bytes_eq]
      exact overlay_of_length_le (same.trans length_eq.symm).le

/-- A read that does not fail delivers what the file has, up to the most that one call
transfers. -/
theorem kernelRead_capped {file : File} {io : ReadIo} {offset count : ℕ} (whole : io.Whole)
    (nonnegative : 0 ≤ (kernelRead file io offset count).1) :
    (kernelRead file io offset count).2 = slice offset (min count MAX_RW_COUNT) file := by
  unfold kernelRead at nonnegative ⊢
  split at nonnegative
  · exact absurd nonnegative (by decide)
  · next accepted =>
    rw [if_neg accepted]
    cases io with
    | error errno =>
        have positive := errno.pos
        simp only at nonnegative
        omega
    | upTo limit =>
        apply List.take_of_length_le
        rw [slice_length]
        exact (min_le_left _ _).trans ((min_le_right _ _).trans whole)

/-- Such a read of no more than that delivers what the file has. -/
theorem kernelRead_whole {file : File} {io : ReadIo} {offset count : ℕ} (whole : io.Whole)
    (small : count ≤ MAX_RW_COUNT) (nonnegative : 0 ≤ (kernelRead file io offset count).1) :
    kernelRead file io offset count =
      (((slice offset count file).length : ℤ), slice offset count file) := by
  have bytes_eq := kernelRead_capped whole nonnegative
  rw [min_eq_left small] at bytes_eq
  apply Prod.ext
  · rw [kernelRead_fst_eq nonnegative, bytes_eq]
  · exact bytes_eq

/-- A read returns an error exactly if its count is refused or a lower layer
fails; the end of the file is not an error. -/
theorem kernelRead_neg_iff (file : File) (io : ReadIo) (offset count : ℕ) :
    (kernelRead file io offset count).1 < 0 ↔ 2 ^ 31 ≤ count ∨ io.fails = true := by
  by_cases refused : 2 ^ 31 ≤ count
  · unfold kernelRead
    rw [if_pos refused]
    exact iff_of_true (by decide) (Or.inl refused)
  · unfold kernelRead
    rw [if_neg refused]
    cases io with
    | error errno =>
        have positive : (0 : ℤ) < (errno : ℕ) := Int.natCast_pos.mpr errno.pos
        exact iff_of_true (Int.neg_neg_of_pos positive) (Or.inr rfl)
    | upTo limit =>
        apply iff_of_false (not_lt.mpr (Int.natCast_nonneg _))
        rintro (large | failed)
        · exact refused large
        · contradiction

theorem kernelRead_nonneg {file : File} {io : ReadIo} {offset count : ℕ} (small : count < 2 ^ 31)
    (readable : io.fails = false) : 0 ≤ (kernelRead file io offset count).1 := by
  rw [← not_lt, kernelRead_neg_iff]
  rintro (large | failed)
  · exact absurd small (not_lt.mpr large)
  · rw [readable] at failed
    contradiction

end Rhino.Kernel
