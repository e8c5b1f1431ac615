import Rhino.Bytes.Words
import Rhino.Gateware.Core

/-!
# The registers behind the bus

Each region of the design fills four mebiwords of the address space, in which its registers
repeat: `led` and `fmc` with every word, `reg_file` and `reg_word` with every sixty-fourth.  On
the bus, what the transfers of `hwrtype_rhino.c` move are these registers.
-/

namespace Rhino.Gateware

open Rhino.Bytes Rhino.Ioreg Rhino.Transition

/-! ## Cells -/

/-- The number of the bank of a region. -/
def Region.bank : Region → ℕ
  | .version => 0
  | .led => 1
  | .fmc => 2
  | .file => 3
  | .word => 4

def BANK_WORDS : ℕ := 2 ^ 22

/-- The address of a word of a region. -/
def Region.wordAddress (r : Region) (i : ℕ) : BitVec 26 :=
  BitVec.ofNat 26 (BANK_WORDS * r.bank + i)

/-- The word lies in the bank and, in `word32_reg`, is one that there is. -/
structure Region.Valid (r : Region) (i : ℕ) : Prop where
  inside : i < BANK_WORDS
  index : r = .word → i % 64 < 2

/-- What the registers hold, word by word; for `fmc` these are the words that go out. -/
def Design.cell (s : Design) : Region → ℕ → UInt16
  | .version, _ => ID <<< 8 ||| VERSION
  | .led, _ => s.ledReg
  | .fmc, _ => s.fmc0LaO
  | .file, i => s.regBank (i % 64)
  | .word, i => s.word32Reg (i % 64)

/-- A write to word `i` is seen in word `j`. -/
def Region.Seen : Region → ℕ → ℕ → Prop
  | .version, _, _ => False
  | .led, _, _ => True
  | .fmc, _, _ => True
  | .file, i, j => i % 64 = j % 64
  | .word, i, j => i % 64 = j % 64

instance (r : Region) (i j : ℕ) : Decidable (r.Seen i j) := by
  cases r <;> unfold Region.Seen <;> infer_instance

/-- The words after one of them has been written. -/
def setCell (cells : Region → ℕ → UInt16) (r : Region) (i : ℕ) (value : UInt16) :
    Region → ℕ → UInt16 :=
  fun other j => if other = r ∧ r.Seen i j then value else cells other j

/-- The words after some of a region have been written, from word `i` on. -/
def storeCells (cells : Region → ℕ → UInt16) (r : Region) :
    ℕ → List UInt16 → Region → ℕ → UInt16
  | _, [] => cells
  | i, value :: rest => storeCells (setCell cells r i value) r (i + 1) rest

/-- A write to a region is not seen in the others. -/
theorem storeCells_of_ne {cells : Region → ℕ → UInt16} {r other : Region} (ne : other ≠ r) {i : ℕ}
    {words : List UInt16} : storeCells cells r i words other = cells other := by
  induction words generalizing cells i with
  | nil => rfl
  | cons value rest ih =>
      rw [storeCells, ih]
      funext j
      exact if_neg fun same => ne same.1

/-- A write is not seen in a word that none of the written ones is. -/
theorem storeCells_of_unseen {cells : Region → ℕ → UInt16} {r : Region} {i k : ℕ}
    {words : List UInt16} (unseen : ∀ j, i ≤ j → j < i + words.length → ¬ r.Seen j k) :
    storeCells cells r i words r k = cells r k := by
  induction words generalizing cells i with
  | nil => rfl
  | cons value rest ih =>
      have length : (value :: rest).length = rest.length + 1 := rfl
      rw [storeCells, ih fun j low high => unseen j (by omega) (by omega)]
      exact if_neg fun same => unseen i le_rfl (by omega) same.2

/-- Words that are different registers hold what has been written to them. -/
theorem storeCells_get {cells : Region → ℕ → UInt16} {r : Region} {i : ℕ} {words : List UInt16}
    (apart : ∀ j k, i ≤ j → j < i + words.length → i ≤ k → k < i + words.length →
      (r.Seen j k ↔ j = k))
    {k : ℕ} {value : UInt16} (found : words[k]? = some value) :
    storeCells cells r i words r (i + k) = value := by
  induction words generalizing cells i k with
  | nil => cases found
  | cons first rest ih =>
      have length : (first :: rest).length = rest.length + 1 := rfl
      rw [storeCells]
      cases k with
      | zero =>
          obtain rfl := Option.some.inj found
          have unseen : ∀ j, i + 1 ≤ j → j < i + 1 + rest.length → ¬ r.Seen j (i + 0) := by
            intro j low high seen
            have same := (apart j (i + 0) (by omega) (by omega) (by omega) (by omega)).mp seen
            omega
          rw [storeCells_of_unseen unseen]
          exact if_pos ⟨rfl, (apart i (i + 0) le_rfl (by omega) le_rfl (by omega)).mpr rfl⟩
      | succ k =>
          have behind := @ih (setCell cells r i first) (i + 1)
            (fun j k low high low' high' => apart j k (by omega) (by omega) (by omega) (by omega))
            k found
          rwa [Nat.add_assoc, Nat.add_comm 1] at behind

section Cells

variable {s : Design} {r : Region} {i : ℕ}

theorem regBankAddress_wordAddress (inside : i < BANK_WORDS) :
    Design.regBankAddress { s with gpmcAddress := r.wordAddress i } = r.bank := by
  change ((r.wordAddress i).extractLsb' 22 4).toNat = _
  have small : r.bank < 5 := by cases r <;> decide
  change i < 4194304 at inside
  rw [Region.wordAddress, BitVec.extractLsb'_toNat, BitVec.toNat_ofNat, Nat.shiftRight_eq_div_pow]
  change (4194304 * r.bank + i) % 67108864 / 4194304 % 16 = _
  omega

theorem regFileAddress_wordAddress (inside : i < BANK_WORDS) :
    Design.regFileAddress { s with gpmcAddress := r.wordAddress i } = i % 64 := by
  change ((r.wordAddress i).extractLsb' 0 6).toNat = _
  have small : r.bank < 5 := by cases r <;> decide
  change i < 4194304 at inside
  rw [Region.wordAddress, BitVec.extractLsb'_toNat, BitVec.toNat_ofNat, Nat.shiftRight_eq_div_pow]
  change (4194304 * r.bank + i) % 67108864 / 2 ^ 0 % 64 = _
  omega

theorem Region.ofBank_bank (r : Region) : Region.ofBank r.bank = some r := by
  cases r <;> rfl

/-- What a read of a word finds. -/
theorem readout_wordAddress (valid : r.Valid i) (fmc : UInt16) :
    Design.readout { s with gpmcAddress := r.wordAddress i } fmc =
      some (if r = .fmc then fmc else s.cell r i) := by
  rw [Design.readout, regBankAddress_wordAddress valid.inside,
    regFileAddress_wordAddress valid.inside, r.ofBank_bank]
  cases r with
  | word => exact if_pos (valid.index rfl)
  | _ => rfl

theorem update_index (words : ℕ → UInt16) (i j : ℕ) (value : UInt16) :
    Function.update words (i % 64) value (j % 64) =
      if i % 64 = j % 64 then value else words (j % 64) := by
  rw [Function.update_apply]
  exact if_congr eq_comm rfl rfl

/-- What a write of a word leaves. -/
theorem written_wordAddress (valid : r.Valid i) (value : UInt16) :
    ∃ t, Design.written { s with gpmcAddress := r.wordAddress i } value = some t ∧
      t.cell = setCell s.cell r i value := by
  rw [Design.written, regBankAddress_wordAddress valid.inside,
    regFileAddress_wordAddress valid.inside, r.ofBank_bank]
  cases r with
  | version =>
      refine ⟨_, rfl, ?_⟩
      funext other j
      rw [setCell, if_neg (by simp [Region.Seen])]
      rfl
  | led =>
      refine ⟨_, rfl, ?_⟩
      funext other j
      cases other <;> rfl
  | fmc =>
      refine ⟨_, rfl, ?_⟩
      funext other j
      cases other <;> rfl
  | file =>
      refine ⟨_, rfl, ?_⟩
      funext other j
      cases other with
      | file => exact (update_index s.regBank i j value).trans (by simp [setCell, Region.Seen]; rfl)
      | _ => rfl
  | word =>
      refine ⟨_, if_pos (valid.index rfl), ?_⟩
      funext other j
      cases other with
      | word =>
          exact (update_index s.word32Reg i j value).trans (by simp [setCell, Region.Seen]; rfl)
      | _ => rfl

end Cells

/-! ## The bus -/

/-- The host makes the edges of its accesses in some way. -/
structure Host where
  edges : ℕ → (access : Access) → access.Edges

/-- The design on the bus, unless it is lost, and the number of accesses so far. -/
structure Device where
  design : Option Design
  accesses : ℕ

/-- An access to the design. -/
def Device.perform (host : Host) (device : Device) (access : Access) : Device where
  design := device.design.bind fun s =>
    run Design.edge s (host.edges device.accesses access).all
  accesses := device.accesses + 1

/-- The word at an offset in a window; the bus has no line for bytes. -/
def wordAt (offset : UInt32) : Option (BitVec 26) :=
  if offset.toNat % 2 = 0 then some (BitVec.ofNat 26 (offset.toNat / 2)) else none

/-- The word that is accessed at an address: the windows differ only in the chip select, which
the design does not tell apart. -/
def wordOf (map : FpgaMap) (addr : UInt32) : Option (BitVec 26) :=
  if InWindow map.cs0Virtual addr then wordAt (addr - map.cs0Virtual)
  else if InWindow map.cs1Virtual addr then wordAt (addr - map.cs1Virtual)
  else if InWindow map.cs2Virtual addr then wordAt (addr - map.cs2Virtual)
  else none

/-- The design as what answers on the bus; an access that is not one to a word of a window is
lost. -/
def gatewareBus (map : FpgaMap) (host : Host) : Bus Device where
  readw addr device :=
    match wordOf map addr with
    | some word =>
        let device := device.perform host (.read word)
        ((device.design.map Design.gpmcDataO).getD 0, device)
    | none => (0, { device with design := none })
  writew value addr device :=
    match wordOf map addr with
    | some word => device.perform host (.write word value)
    | none => { device with design := none }

section Bus

variable (map : FpgaMap) (host : Host) {device : Device} {s : Design} {r : Region} {i : ℕ}

theorem perform_read (held : device.design = some s) (valid : r.Valid i) :
    ∃ t, (device.perform host (.read (r.wordAddress i))).design = some t ∧ t.cell = s.cell ∧
      (r ≠ .fmc → t.gpmcDataO = s.cell r i) := by
  obtain ⟨fmc, value, shown, finished⟩ := run_read
    (host.edges device.accesses (.read (r.wordAddress i)))
    (fun fmc => ⟨_, @readout_wordAddress s r i valid fmc⟩)
  have performed : (device.perform host (.read (r.wordAddress i))).design =
      some { s with gpmcAddress := r.wordAddress i, gpmcDataO := value } := by
    rw [Device.perform, held, Option.bind_some, finished]
  rw [readout_wordAddress valid] at shown
  refine ⟨_, performed, ?_, fun other => ?_⟩
  · funext region j
    cases region <;> rfl
  · rw [if_neg other] at shown
    exact (Option.some.inj shown).symm

theorem perform_write (held : device.design = some s) (valid : r.Valid i) (value : UInt16) :
    ∃ t, (device.perform host (.write (r.wordAddress i) value)).design = some t ∧
      t.cell = setCell s.cell r i value := by
  obtain ⟨t, done, cells⟩ := @written_wordAddress s r i valid value
  have finished := run_write (host.edges device.accesses (.write (r.wordAddress i) value)) done
  refine ⟨t, ?_, cells⟩
  rw [Device.perform, held, Option.bind_some, finished]

/-- The address of a word of a region. -/
def wordLoc (r : Region) (i : ℕ) : UInt32 :=
  map.cs0Virtual + UInt32.ofNat (2 * (BANK_WORDS * r.bank + i))

theorem wordLoc_succ (r : Region) (i : ℕ) : wordLoc map r i + 2 = wordLoc map r (i + 1) := by
  rw [wordLoc, wordLoc, ← Nat.add_assoc, Nat.mul_succ, UInt32.ofNat_add, UInt32.add_assoc]
  rfl

theorem wordOf_wordLoc (inside : i < BANK_WORDS) :
    wordOf map (wordLoc map r i) = some (r.wordAddress i) := by
  have bank : r.bank < 5 := by cases r <;> decide
  have fits := (map.kernel map.cs0Virtual List.mem_cons_self).2
  change i < 4194304 at inside
  change _ + 134217728 ≤ _ at fits
  have place : 2 * (BANK_WORDS * r.bank + i) < 2 ^ 32 := by
    change 2 * (4194304 * r.bank + i) < _
    omega
  have offset : (UInt32.ofNat (2 * (BANK_WORDS * r.bank + i))).toNat =
      2 * (BANK_WORDS * r.bank + i) := UInt32.toNat_ofNat_of_lt' place
  have value : (wordLoc map r i).toNat =
      map.cs0Virtual.toNat + 2 * (BANK_WORDS * r.bank + i) := by
    rw [wordLoc, UInt32.toNat_add, offset]
    apply Nat.mod_eq_of_lt
    change _ + 2 * (4194304 * r.bank + i) < _
    omega
  have window : InWindow map.cs0Virtual (wordLoc map r i) := by
    refine ⟨UInt32.le_iff_toNat_le.mpr (by omega), ?_⟩
    rw [value]
    change _ + 2 * (4194304 * r.bank + i) < _ + 134217728
    omega
  have back : wordLoc map r i - map.cs0Virtual =
      UInt32.ofNat (2 * (BANK_WORDS * r.bank + i)) := by
    rw [wordLoc, UInt32.add_comm, UInt32.add_sub_cancel]
  rw [wordOf, if_pos window, back, wordAt, offset, if_pos (Nat.mul_mod_right _ _),
    Nat.mul_div_cancel_left _ Nat.two_pos, Region.wordAddress]

/-- A transfer from the words of a region finds what they hold and leaves it. -/
theorem recvWords_region {io : IoState Device} (held : io.bus.design = some s) {count : ℕ}
    (valid : ∀ j, i ≤ j → j < i + count → r.Valid j) :
    ∃ t, (recvWords (gatewareBus map host) count (wordLoc map r i) io).2.bus.design = some t ∧
      t.cell = s.cell ∧ (r ≠ .fmc →
        (recvWords (gatewareBus map host) count (wordLoc map r i) io).1 =
          bytesOf ((List.range' i count).map (s.cell r))) := by
  induction count generalizing i s io with
  | zero => exact ⟨s, held, rfl, fun _ => rfl⟩
  | succ count ih =>
      have here := valid i le_rfl (by omega)
      obtain ⟨next, performed, cells, word⟩ := perform_read host held here
      have read : (gatewareBus map host).readw (wordLoc map r i) io.bus =
          (next.gpmcDataO, io.bus.perform host (.read (r.wordAddress i))) := by
        simp only [gatewareBus, wordOf_wordLoc map here.inside, performed]
        rfl
      obtain ⟨t, finished, kept, rest⟩ := @ih next (i + 1)
        ⟨io.bus.perform host (.read (r.wordAddress i)),
          io.trace ++ [.readw (wordLoc map r i)]⟩ performed
        (fun j low high => valid j (by omega) (by omega))
      rw [recvWords, read, wordLoc_succ]
      refine ⟨t, finished, kept.trans cells, fun other => ?_⟩
      dsimp only
      rw [rest other, word other, cells, List.range'_succ, List.map_cons, bytesOf_cons]

/-- A transfer to the words of a region. -/
theorem sendWords_region {io : IoState Device} (held : io.bus.design = some s) {words : List UInt16}
    (valid : ∀ j, i ≤ j → j < i + words.length → r.Valid j) (more : List UInt8) :
    ∃ t, (sendWords (gatewareBus map host) words.length (bytesOf words ++ more)
        (wordLoc map r i) io).bus.design = some t ∧
      t.cell = storeCells s.cell r i words := by
  induction words generalizing i s io with
  | nil => exact ⟨s, held, rfl⟩
  | cons value rest ih =>
      have here := valid i le_rfl (by simp)
      obtain ⟨next, performed, cells⟩ := perform_write host held here value
      have write : (gatewareBus map host).writew value (wordLoc map r i) io.bus =
          io.bus.perform host (.write (r.wordAddress i) value) := by
        simp only [gatewareBus, wordOf_wordLoc map here.inside]
      obtain ⟨t, finished, kept⟩ := @ih next (i + 1)
        ⟨io.bus.perform host (.write (r.wordAddress i) value),
          io.trace ++ [.writew value (wordLoc map r i)]⟩ performed
        (fun j low high => valid j (by omega) (by rw [List.length_cons]; omega))
      refine ⟨t, ?_, ?_⟩
      · have behind : (u16Bytes value ++ (bytesOf rest ++ more)).drop 2 = bytesOf rest ++ more :=
          List.drop_left' (u16Bytes_length value)
        rw [List.length_cons, sendWords, bytesOf_cons, List.append_assoc, u16At_u16Bytes_append,
          write, wordLoc_succ, behind]
        exact finished
      · rw [kept, cells]
        rfl

end Bus

end Rhino.Gateware
