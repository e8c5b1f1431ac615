import Rhino.Bytes.Digits
import Rhino.Fat.Core

/-!
# The allocation table

What a card holds is a function of the number of a sector.  `get_fatent` keeps six sectors
of the table in a buffer; as long as the buffer holds the sectors that its number says, an
entry is what the whole table has at its place: the digit of that number in base 2 to the
12, 16 or 32.
-/

namespace Rhino.Fat

open Rhino.Bytes

/-! ## Reading sectors -/

def SECTOR_SIZE : ℕ := 512

/-- The contents of `count` sectors from `start` on. -/
def sectors (volume : ℕ → List UInt8) (start count : ℕ) : List UInt8 :=
  (List.range' start count).flatMap volume

section Sectors

variable {volume : ℕ → List UInt8}

theorem sectors_length (full : ∀ n, (volume n).length = SECTOR_SIZE) (start count : ℕ) :
    (sectors volume start count).length = SECTOR_SIZE * count := by
  induction count generalizing start with
  | zero => rfl
  | succ count ih =>
      have rest := ih (start + 1)
      rw [sectors] at rest ⊢
      rw [List.range'_succ, List.flatMap_cons, List.length_append, rest, full, Nat.mul_succ,
        Nat.add_comm]

theorem sectors_add (start first second : ℕ) :
    sectors volume start (first + second) =
      sectors volume start first ++ sectors volume (start + first) second := by
  rw [sectors, sectors, sectors, ← List.flatMap_append, ← List.range'_append_1]

/-- A window of whole sectors. -/
theorem slice_sectors (full : ∀ n, (volume n).length = SECTOR_SIZE) {start count first size : ℕ}
    (inside : first + size ≤ count) :
    slice (SECTOR_SIZE * first) (SECTOR_SIZE * size) (sectors volume start count) =
      sectors volume (start + first) size := by
  obtain ⟨rest, rfl⟩ := Nat.exists_eq_add_of_le inside
  have front := sectors_length full start first
  have middle := sectors_length full (start + first) size
  rw [Nat.add_assoc, sectors_add, slice_append_right front.le, front, Nat.sub_self, sectors_add,
    ← middle, slice_zero_append]

end Sectors

theorem slice_loadAt (memory : Memory) {offset count size : ℕ} (inside : offset + count ≤ size)
    (start : ℕ) : slice offset count (loadAt memory start size) =
      loadAt memory (start + offset) count := by
  obtain ⟨rest, rfl⟩ := Nat.exists_eq_add_of_le inside
  have middle := loadAt_length memory (start + offset) count
  rw [Nat.add_assoc, loadAt_add, slice_append_right (loadAt_length _ _ _).le, loadAt_length,
    Nat.sub_self, loadAt_add]
  nth_rewrite 1 [← middle]
  exact slice_zero_append _ _

/-! ## The card -/

/-- The number of sectors that the arguments of a card can tell apart. -/
def CardMode.reach : CardMode → ℕ
  | .sector => 2 ^ 32
  | .byte => 2 ^ 23

/-- The argument for a sector. -/
def CardMode.argument (mode : CardMode) (n : ℕ) : UInt32 :=
  match mode with
  | .sector => UInt32.ofNat n
  | .byte => UInt32.ofNat n * MMCSD_SECTOR_SIZE

/-- The first `capacity` sectors of the card can be read. -/
structure Card.Holds (card : Card) (image : ℕ → List UInt8) (capacity : ℕ) : Prop where
  full : ∀ n, (image n).length = SECTOR_SIZE
  reach : capacity < card.mode.reach
  read : ∀ n < capacity, card.readSingle (card.mode.argument n) = (1, image n)

/-- The increment of the argument from sector to sector. -/
def CardMode.increment : CardMode → UInt32
  | .sector => 1
  | .byte => MMCSD_SECTOR_SIZE

theorem CardMode.argument_succ (mode : CardMode) (n : ℕ) :
    mode.argument n + mode.increment = mode.argument (n + 1) := by
  cases mode with
  | sector => exact (UInt32.ofNat_add n 1).symm
  | byte =>
      rw [argument, argument, UInt32.ofNat_add, UInt32.add_mul]
      rfl

theorem Card.Holds.readSectors_eq {card : Card} {image : ℕ → List UInt8} {capacity : ℕ}
    (holds : card.Holds image capacity) {start count : ℕ} (inside : start + count ≤ capacity)
    (memory : Memory) (outputBuf : ℕ) :
    readSectors card card.mode.increment count (card.mode.argument start) memory outputBuf =
      (1, storeAt memory outputBuf (sectors image start count)) := by
  induction count generalizing start memory outputBuf with
  | zero => simp [readSectors, sectors]
  | succ count ih =>
      have behind := @ih (start + 1) (by omega) (storeAt memory outputBuf (image start))
        (outputBuf + (image start).length)
      rw [readSectors, holds.read start (by omega)]
      dsimp only
      rw [if_neg (not_not.mpr rfl), CardMode.argument_succ]
      rw [storeAt_storeAt, holds.full] at behind
      exact behind

theorem Card.Holds.mmcBread_eq {card : Card} {image : ℕ → List UInt8} {capacity : ℕ}
    (holds : card.Holds image capacity) {blknr blkcnt : UInt32}
    (inside : blknr.toNat + blkcnt.toNat ≤ capacity) (short : blkcnt.toNat < 2 ^ 23)
    (memory : Memory) (dst : ℕ) :
    mmcBread card blknr blkcnt memory dst =
      (1, storeAt memory dst (sectors image blknr.toNat blkcnt.toNat)) := by
  have count_eq : ((blkcnt * MMCSD_SECTOR_SIZE + (MMCSD_SECTOR_SIZE - 1)) /
      MMCSD_SECTOR_SIZE).toNat = blkcnt.toNat := by
    have bytes : (blkcnt * MMCSD_SECTOR_SIZE).toNat = blkcnt.toNat * 512 := by
      rw [UInt32.toNat_mul]
      exact Nat.mod_eq_of_lt (by change _ * 512 < _; omega)
    rw [UInt32.toNat_div, UInt32.toNat_add, bytes]
    change (blkcnt.toNat * 512 + 511) % 2 ^ 32 / 512 = _
    omega
  have sent := holds.readSectors_eq inside memory dst
  rw [mmcBread, omapMmcReadSect]
  by_cases none : (blkcnt * MMCSD_SECTOR_SIZE + (MMCSD_SECTOR_SIZE - 1)) / MMCSD_SECTOR_SIZE = 0
  · rw [none] at count_eq
    rw [if_pos none, ← count_eq]
    simp [sectors]
  · rw [if_neg none, count_eq, ← sent]
    have argument : UInt32.ofNat blknr.toNat = blknr := UInt32.ofNat_toNat
    cases mode : card.mode with
    | sector => rw [CardMode.argument, argument]; rfl
    | byte => rw [CardMode.argument, argument]; rfl

/-- The first `capacity` sectors of the partition can be read. -/
structure Disk.Serves (disk : Disk) (volume : ℕ → List UInt8) (capacity : ℕ) : Prop where
  full : ∀ n, (volume n).length = SECTOR_SIZE
  reach : capacity < 2 ^ 32
  read : ∀ (start count : UInt32) (memory : Memory) (bufptr : ℕ),
    start.toNat + count.toNat ≤ capacity → count.toNat < 2 ^ 23 →
      diskRead disk start count memory bufptr =
        (1, storeAt memory bufptr (sectors volume start.toNat count.toNat))

theorem sectors_shift (image : ℕ → List UInt8) (offset start count : ℕ) :
    sectors (fun n => image (offset + n)) start count = sectors image (offset + start) count := by
  induction count generalizing start with
  | zero => rfl
  | succ count ih =>
      have rest := ih (start + 1)
      rw [sectors, sectors] at rest ⊢
      rw [List.range'_succ, List.range'_succ, List.flatMap_cons, List.flatMap_cons, rest,
        Nat.add_assoc]

theorem Card.Holds.reach_word {card : Card} {image : ℕ → List UInt8} {capacity : ℕ}
    (holds : card.Holds image capacity) : capacity < 2 ^ 32 := by
  have reach := holds.reach
  cases mode : card.mode with
  | sector => rwa [mode] at reach
  | byte =>
      rw [mode, CardMode.reach] at reach
      omega

/-- A partition of a card. -/
theorem Card.Holds.serves {card : Card} {image : ℕ → List UInt8} {total : ℕ}
    (holds : card.Holds image total) {disk : Disk} (device : disk.curDev = some card)
    {capacity : ℕ} (inside : disk.partOffset.toNat + capacity ≤ total) :
    disk.Serves (fun n => image (disk.partOffset.toNat + n)) capacity where
  full n := holds.full _
  reach := (Nat.le_of_add_left_le inside).trans_lt holds.reach_word
  read start count memory bufptr fits short := by
    have limit := holds.reach_word
    have place : (start + disk.partOffset).toNat = disk.partOffset.toNat + start.toNat := by
      rw [UInt32.toNat_add]
      omega
    rw [diskRead, device]
    dsimp only
    rw [holds.mmcBread_eq (by omega) short, place, sectors_shift]
    rfl

/-! ## Entries of twelve bits -/

theorem toNat_low (w : UInt16) : (w.toUInt32 &&& 0xfff).toNat = w.toNat % 4096 := by
  rw [UInt32.toNat_and, UInt16.toNat_toUInt32]
  exact Nat.and_two_pow_sub_one_eq_mod w.toNat 12

theorem toNat_high (w : UInt16) : ((w.toUInt32 &&& 0xfff0) >>> 4).toNat = w.toNat / 16 := by
  rw [UInt32.toNat_shiftRight, UInt32.toNat_and, UInt16.toNat_toUInt32]
  exact @and_high_shiftRight w.toNat 4 12 w.toNat_lt

/-- An entry whose low bits are the upper four of a word. -/
theorem toNat_across_four (v w : UInt16) :
    (((w &&& 0x00ff).toUInt32 <<< 4) ||| ((v &&& 0xf000).toUInt32 >>> 12)).toNat =
      v.toNat / 4096 + w.toNat % 256 * 16 := by
  have small := v.toNat_lt
  have upper : (v.toNat &&& 0xf000) >>> 12 = v.toNat / 4096 :=
    @and_high_shiftRight v.toNat 12 4 small
  have lower : w.toNat &&& 0x00ff = w.toNat % 256 := Nat.and_two_pow_sub_one_eq_mod w.toNat 8
  rw [UInt32.toNat_or, UInt32.toNat_shiftLeft, UInt32.toNat_shiftRight, UInt16.toNat_toUInt32,
    UInt16.toNat_toUInt32, UInt16.toNat_and, UInt16.toNat_and]
  change (w.toNat &&& 0x00ff) <<< 4 % 2 ^ 32 ||| (v.toNat &&& 0xf000) >>> 12 = _
  rw [upper, lower, Nat.mod_eq_of_lt (by rw [Nat.shiftLeft_eq]; omega)]
  exact shiftLeft_or_eq (by omega)

/-- An entry whose low bits are the upper eight of a word. -/
theorem toNat_across_eight (v w : UInt16) :
    (((w &&& 0x000f).toUInt32 <<< 8) ||| ((v &&& 0xff00).toUInt32 >>> 8)).toNat =
      v.toNat / 256 + w.toNat % 16 * 256 := by
  have small := v.toNat_lt
  have upper : (v.toNat &&& 0xff00) >>> 8 = v.toNat / 256 :=
    @and_high_shiftRight v.toNat 8 8 small
  have lower : w.toNat &&& 0x000f = w.toNat % 16 := Nat.and_two_pow_sub_one_eq_mod w.toNat 4
  rw [UInt32.toNat_or, UInt32.toNat_shiftLeft, UInt32.toNat_shiftRight, UInt16.toNat_toUInt32,
    UInt16.toNat_toUInt32, UInt16.toNat_and, UInt16.toNat_and]
  change (w.toNat &&& 0x000f) <<< 8 % 2 ^ 32 ||| (v.toNat &&& 0xff00) >>> 8 = _
  rw [upper, lower, Nat.mod_eq_of_lt (by rw [Nat.shiftLeft_eq]; omega)]
  exact shiftLeft_or_eq (by omega)

/-! ## The entries of the cache -/

/-- The number of bits of an entry. -/
def FatSize.width : FatSize → ℕ
  | .fat12 => 12
  | .fat16 => 16
  | .fat32 => 32

def CACHE_SIZE : ℕ := SECTOR_SIZE * FATBUFBLOCKS.toNat

theorem FatSize.width_mul_bufSize (kind : FatSize) :
    kind.width * kind.bufSize.toNat = 8 * CACHE_SIZE := by
  cases kind <;> rfl

theorem FatSize.bufSize_pos (kind : FatSize) : 0 < kind.bufSize.toNat := by
  cases kind <;> decide

section Cached

variable {fs : FsData} {block : List UInt8} (held : loadAt fs.fatbuf 0 CACHE_SIZE = block)
include held

/-- A word of the cache is a field of what the cache holds. -/
theorem FsData.word_eq {index : UInt32} (inside : 2 * index.toNat + 2 ≤ CACHE_SIZE) :
    (fs.word index).toNat = field 16 index.toNat block := by
  have bytes : loadAt fs.fatbuf (2 * index.toNat) 2 = slice (2 * index.toNat) 2 block := by
    rw [← held, slice_loadAt _ inside, Nat.zero_add]
  have whole : slice 0 2 (slice (2 * index.toNat) 2 block) = slice (2 * index.toNat) 2 block := by
    rw [slice_slice le_rfl, Nat.add_zero]
  rw [FsData.word, bytes, u16At, whole, ← field_bytes, UInt16.toNat_ofNat']
  exact Nat.mod_eq_of_lt (field_lt 16 _ _)

theorem FsData.cached_fat32 (kind : fs.fatsize = .fat32) {offset : UInt32}
    (inside : offset.toNat < FatSize.fat32.bufSize.toNat) :
    (fs.cached offset).toNat = field 32 offset.toNat block := by
  have fits : 4 * offset.toNat + 4 ≤ CACHE_SIZE := by
    change _ < 768 at inside
    change _ ≤ 3072
    omega
  have bytes : loadAt fs.fatbuf (4 * offset.toNat) 4 = slice (4 * offset.toNat) 4 block := by
    rw [← held, slice_loadAt _ fits, Nat.zero_add]
  have whole : slice 0 4 (slice (4 * offset.toNat) 4 block) = slice (4 * offset.toNat) 4 block := by
    rw [slice_slice le_rfl, Nat.add_zero]
  rw [FsData.cached, kind]
  dsimp only
  rw [bytes, u32At, whole, ← field_bytes, UInt32.toNat_ofNat']
  exact Nat.mod_eq_of_lt (field_lt 32 _ _)

theorem FsData.cached_fat16 (kind : fs.fatsize = .fat16) {offset : UInt32}
    (inside : offset.toNat < FatSize.fat16.bufSize.toNat) :
    (fs.cached offset).toNat = field 16 offset.toNat block := by
  rw [FsData.cached, kind]
  dsimp only
  rw [UInt16.toNat_toUInt32]
  apply FsData.word_eq held
  change _ < 1536 at inside
  change _ ≤ 3072
  omega

/-- The four ways in which an entry of twelve bits lies in the words. -/
theorem FsData.cached_fat12 (kind : fs.fatsize = .fat12) {offset : UInt32}
    (inside : offset.toNat < FatSize.fat12.bufSize.toNat) :
    (fs.cached offset).toNat = field 12 offset.toNat block := by
  change _ < 2048 at inside
  obtain ⟨group, rest, small, offset_eq⟩ : ∃ group rest, rest < 4 ∧
      offset.toNat = 4 * group + rest :=
    ⟨offset.toNat / 4, offset.toNat % 4, Nat.mod_lt _ (by decide), (Nat.div_add_mod _ 4).symm⟩
  have low : (offset &&& 3).toNat = rest := by
    rw [UInt32.toNat_and]
    change offset.toNat &&& 2 ^ 2 - 1 = rest
    rw [Nat.and_two_pow_sub_one_eq_mod, offset_eq]
    omega
  have off16 : (offset * 3 / 4).toNat = offset.toNat * 3 / 4 := by
    rw [UInt32.toNat_div, UInt32.toNat_mul]
    change offset.toNat * 3 % 2 ^ 32 / 4 = _
    omega
  have next16 : (offset * 3 / 4 + 1).toNat = offset.toNat * 3 / 4 + 1 := by
    rw [UInt32.toNat_add, off16]
    change (_ + 1) % 2 ^ 32 = _
    omega
  obtain ⟨first, second, third, fourth⟩ := field_twelve group block
  have wordAt {index : UInt32} {k : ℕ} (at_k : index.toNat = 3 * group + k) (few : k < 3) :
      (fs.word index).toNat = field 16 (3 * group + k) block := by
    rw [← at_k]
    apply FsData.word_eq held
    change _ ≤ 3072
    omega
  have ne_of_low {k : UInt32} (other : rest ≠ k.toNat) : offset &&& 3 ≠ k := by
    intro same
    rw [same] at low
    exact other low.symm
  have eq_of_low {k : UInt32} (same : rest = k.toNat) : offset &&& 3 = k :=
    UInt32.toNat_inj.mp (low.trans same)
  rw [FsData.cached, kind, offset_eq]
  dsimp only
  rcases (by omega : rest = 0 ∨ rest = 1 ∨ rest = 2 ∨ rest = 3) with rfl | rfl | rfl | rfl
  · have word := @wordAt (offset * 3 / 4) 0 (by omega) (by decide)
    rw [if_pos (eq_of_low rfl), toNat_low, word]
    exact first.symm
  · have word := @wordAt (offset * 3 / 4) 0 (by omega) (by decide)
    have next := @wordAt (offset * 3 / 4 + 1) 1 (by omega) (by decide)
    rw [if_neg (ne_of_low (by decide)), if_pos (eq_of_low rfl), toNat_across_four, word, next]
    exact second.symm
  · have word := @wordAt (offset * 3 / 4) 1 (by omega) (by decide)
    have next := @wordAt (offset * 3 / 4 + 1) 2 (by omega) (by decide)
    rw [if_neg (ne_of_low (by decide)), if_neg (ne_of_low (by decide)), if_pos (eq_of_low rfl),
      toNat_across_eight, word, next]
    exact third.symm
  · have word := @wordAt (offset * 3 / 4) 2 (by omega) (by decide)
    rw [if_neg (ne_of_low (by decide)), if_neg (ne_of_low (by decide)),
      if_neg (ne_of_low (by decide)), toNat_high, word]
    exact fourth.symm

/-- Every entry of the cache is a field of what the cache holds. -/
theorem FsData.cached_eq {offset : UInt32} (inside : offset.toNat < fs.fatsize.bufSize.toNat) :
    (fs.cached offset).toNat = field fs.fatsize.width offset.toNat block := by
  cases kind : fs.fatsize with
  | fat12 => exact FsData.cached_fat12 held kind (kind ▸ inside)
  | fat16 => exact FsData.cached_fat16 held kind (kind ▸ inside)
  | fat32 => exact FsData.cached_fat32 held kind (kind ▸ inside)

end Cached

/-! ## The entries of the table -/

/-- A file system with another cache. -/
def FsData.withCache (fs : FsData) (fatbuf : Memory) (fatbufnum : UInt32) : FsData :=
  { fs with fatbuf := fatbuf, fatbufnum := fatbufnum }

/-- The allocation table. -/
def FsData.table (fs : FsData) (volume : ℕ → List UInt8) : List UInt8 :=
  sectors volume fs.fatSect.toNat fs.fatlength.toNat

/-- An entry of the allocation table. -/
def FsData.entry (fs : FsData) (volume : ℕ → List UInt8) (index : ℕ) : ℕ :=
  field fs.fatsize.width index (fs.table volume)

/-- The table has the entry. -/
def FsData.HasEntry (fs : FsData) (index : ℕ) : Prop :=
  fs.fatsize.width * (index + 1) ≤ 8 * (SECTOR_SIZE * fs.fatlength.toNat)

/-- The six sectors of the table that are cached under a number. -/
def FsData.cacheBlock (fs : FsData) (volume : ℕ → List UInt8) (bufnum : ℕ) : List UInt8 :=
  sectors volume (fs.fatSect.toNat + FATBUFBLOCKS.toNat * bufnum) FATBUFBLOCKS.toNat

/-- The cache is empty or holds what its number says. -/
def FsData.Coherent (fs : FsData) (volume : ℕ → List UInt8) : Prop :=
  fs.fatbufnum = 0xffffffff ∨
    loadAt fs.fatbuf 0 CACHE_SIZE = fs.cacheBlock volume fs.fatbufnum.toNat

section Table

variable {disk : Disk} {volume : ℕ → List UInt8} {capacity : ℕ} {fs : FsData}

/-- Where the entries of a block begin. -/
theorem FsData.HasEntry.block_lt {index : ℕ} (has : fs.HasEntry index) :
    FATBUFBLOCKS.toNat * (index / fs.fatsize.bufSize.toNat) < fs.fatlength.toNat := by
  have bits := fs.fatsize.width_mul_bufSize
  have lower := Nat.mul_le_mul_left fs.fatsize.width
    (Nat.div_mul_le_self index fs.fatsize.bufSize.toNat)
  have positive : 0 < fs.fatsize.width := by
    cases fs.fatsize <;> decide
  rw [Nat.mul_comm (index / _), ← Nat.mul_assoc, bits] at lower
  unfold FsData.HasEntry at has
  rw [Nat.mul_succ] at has
  change 8 * 3072 * _ ≤ _ at lower
  change _ ≤ 8 * (512 * _) at has
  change 6 * _ < _
  omega

/-- An entry of a block is an entry of the table. -/
theorem FsData.field_cacheBlock (full : ∀ n, (volume n).length = SECTOR_SIZE) {index : ℕ}
    (has : fs.HasEntry index) :
    field fs.fatsize.width (index % fs.fatsize.bufSize.toNat)
        (fs.cacheBlock volume (index / fs.fatsize.bufSize.toNat)) = fs.entry volume index := by
  have bits := fs.fatsize.width_mul_bufSize
  generalize block_eq : index / fs.fatsize.bufSize.toNat = block
  -- A piece of the card that is long enough for the table and for the block.
  let long := sectors volume fs.fatSect.toNat
    (FATBUFBLOCKS.toNat * block + FATBUFBLOCKS.toNat + fs.fatlength.toNat)
  have window : slice (SECTOR_SIZE * (FATBUFBLOCKS.toNat * block)) CACHE_SIZE long =
      fs.cacheBlock volume block :=
    slice_sectors full (Nat.le_add_right _ _)
  have front : long.take (SECTOR_SIZE * fs.fatlength.toNat) = fs.table volume := by
    have whole := @slice_sectors volume full fs.fatSect.toNat
      (FATBUFBLOCKS.toNat * block + FATBUFBLOCKS.toNat + fs.fatlength.toNat) 0 fs.fatlength.toNat
      (by omega)
    rwa [Nat.mul_zero, slice, List.drop_zero] at whole
  have aligned : 8 * (SECTOR_SIZE * (FATBUFBLOCKS.toNat * block)) =
      fs.fatsize.width * (fs.fatsize.bufSize.toNat * block) := by
    rw [← Nat.mul_assoc fs.fatsize.width, bits, CACHE_SIZE, Nat.mul_assoc, Nat.mul_assoc]
  have inside : fs.fatsize.width * (index % fs.fatsize.bufSize.toNat + 1) ≤ 8 * CACHE_SIZE := by
    rw [← bits]
    exact Nat.mul_le_mul_left _ (Nat.mod_lt _ fs.fatsize.bufSize_pos)
  rw [← window, field_slice aligned inside, ← block_eq, Nat.div_add_mod, FsData.entry, ← front,
    field_take has]

/-- A block of the table is read into the cache. -/
theorem fillFatbuf_eq (serves : disk.Serves volume capacity)
    (room : fs.fatSect.toNat + fs.fatlength.toNat + FATBUFBLOCKS.toNat ≤ capacity)
    {bufnum : UInt32} (before : FATBUFBLOCKS.toNat * bufnum.toNat < fs.fatlength.toNat) :
    fillFatbuf disk fs bufnum =
      (1, fs.withCache (storeAt fs.fatbuf 0 (fs.cacheBlock volume bufnum.toNat)) bufnum) := by
  have long : ¬ fs.fatlength.toUInt32 * FS_BLOCK_SIZE < FATBUFBLOCKS := by
    have small := fs.fatlength.toNat_lt
    rw [UInt32.lt_iff_toNat_lt, UInt32.toNat_mul, UInt16.toNat_toUInt32]
    change ¬ fs.fatlength.toNat * 512 % 2 ^ 32 < 6
    omega
  have place : (bufnum * FATBUFBLOCKS + fs.fatSect.toUInt32).toNat =
      fs.fatSect.toNat + FATBUFBLOCKS.toNat * bufnum.toNat := by
    have small := fs.fatlength.toNat_lt
    have low := fs.fatSect.toNat_lt
    rw [UInt32.toNat_add, UInt32.toNat_mul, UInt16.toNat_toUInt32]
    change 6 * _ < _ at before
    change (bufnum.toNat * 6 % 2 ^ 32 + _) % 2 ^ 32 = _ + 6 * bufnum.toNat
    omega
  have read := serves.read (bufnum * FATBUFBLOCKS + fs.fatSect.toUInt32) FATBUFBLOCKS fs.fatbuf 0
    (by omega) (by decide)
  rw [fillFatbuf]
  dsimp only
  rw [if_neg long, read, place]
  rfl

/-- `get_fatent` returns the entry of the table and keeps the cache coherent. -/
theorem getFatent_eq (serves : disk.Serves volume capacity) (coherent : fs.Coherent volume)
    (room : fs.fatSect.toNat + fs.fatlength.toNat + FATBUFBLOCKS.toNat ≤ capacity)
    {entry : UInt32} (has : fs.HasEntry entry.toNat) :
    ∃ fatbuf fatbufnum,
      getFatent disk fs entry =
        (UInt32.ofNat (fs.entry volume entry.toNat), fs.withCache fatbuf fatbufnum) ∧
      (fs.withCache fatbuf fatbufnum).Coherent volume := by
  have positive := fs.fatsize.bufSize_pos
  generalize bufnum_eq : entry / fs.fatsize.bufSize = bufnum
  have block : bufnum.toNat = entry.toNat / fs.fatsize.bufSize.toNat := by
    rw [← bufnum_eq, UInt32.toNat_div]
  have before := has.block_lt
  rw [← block] at before
  have offset : (entry - bufnum * fs.fatsize.bufSize).toNat =
      entry.toNat % fs.fatsize.bufSize.toNat := by
    have below := Nat.div_mul_le_self entry.toNat fs.fatsize.bufSize.toNat
    have product : (bufnum * fs.fatsize.bufSize).toNat =
        entry.toNat / fs.fatsize.bufSize.toNat * fs.fatsize.bufSize.toNat := by
      rw [UInt32.toNat_mul, block, Nat.mod_eq_of_lt (below.trans_lt entry.toNat_lt)]
    have order : bufnum * fs.fatsize.bufSize ≤ entry := by
      rwa [UInt32.le_iff_toNat_le, product]
    rw [UInt32.toNat_sub_of_le _ _ order, product, Nat.mul_comm, Nat.mod_def]
  have answer {next : FsData} (kind : next.fatsize = fs.fatsize)
      (held : loadAt next.fatbuf 0 CACHE_SIZE = fs.cacheBlock volume bufnum.toNat) :
      next.cached (entry - bufnum * fs.fatsize.bufSize) =
        UInt32.ofNat (fs.entry volume entry.toNat) := by
    have inside : (entry - bufnum * fs.fatsize.bufSize).toNat < next.fatsize.bufSize.toNat := by
      rw [offset, kind]
      exact Nat.mod_lt _ positive
    have value := FsData.cached_eq held inside
    rw [kind, offset, block, FsData.field_cacheBlock serves.full has] at value
    rw [← value, UInt32.ofNat_toNat]
  rw [getFatent]
  dsimp only
  rw [bufnum_eq]
  by_cases hit : bufnum = fs.fatbufnum
  · have held : loadAt fs.fatbuf 0 CACHE_SIZE = fs.cacheBlock volume bufnum.toNat := by
      rcases coherent with empty | held
      · have small := fs.fatlength.toNat_lt
        rw [hit, empty] at before
        change 6 * (2 ^ 32 - 1) < _ at before
        omega
      · rwa [hit]
    rw [if_neg (not_not.mpr hit), answer rfl held]
    exact ⟨fs.fatbuf, fs.fatbufnum, rfl, coherent⟩
  · have length : (fs.cacheBlock volume bufnum.toNat).length = CACHE_SIZE :=
      sectors_length serves.full _ _
    have held := loadAt_storeAt fs.fatbuf 0 (fs.cacheBlock volume bufnum.toNat)
    rw [length] at held
    rw [if_pos hit, fillFatbuf_eq serves room before]
    dsimp only
    have read : ¬ (1 : ℤ) < 0 := by decide
    let next := fs.withCache (storeAt fs.fatbuf 0 (fs.cacheBlock volume bufnum.toNat)) bufnum
    rw [if_neg read, @answer next rfl held]
    exact ⟨_, _, rfl, Or.inr held⟩

end Table

end Rhino.Fat
