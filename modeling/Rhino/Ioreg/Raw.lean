import Rhino.Ioreg.Memory
import Rhino.Ioreg.Window
import Mathlib.Algebra.BigOperators.Group.Finset.Basic
import Mathlib.Algebra.Order.BigOperators.Group.Finset

/-!
# Raw access

Reads and writes of raw bytes cut a request in different ways, one with signed
and one with unsigned comparisons, but for a register shorter than 2^31 bytes
both come to the same range; it is rounded down to whole 16-bit words.  So what
a raw write reports as written is what the next read at its position finds.

The rounding has a price for a reader who goes through a register from its
start: a request for a single byte, and one for the last byte of a register of
odd length, is answered like one at the end of the file.  `reads_deliver_iff`
says exactly when reading until 0 is returned delivers the whole register.
-/

namespace Rhino.Ioreg

open Rhino.Bof Rhino.Bytes Rhino.Kernel Rhino.Loader

/-! ## The two cuts -/

/-- The bytes that a raw transfer is cut to: no more than asked for, than there
are behind the position, and than the buffer holds. -/
def rawCut (reg : Ioreg) (fcount : ℕ) (fpos : ℤ) : ℕ :=
  min fcount (min (reg.len.toNat - fpos.toNat) IOBUF_SIZE)

section Bounds

variable (reg : Ioreg) (fcount : ℕ) (fpos : ℤ)

theorem rawCut_le_count : rawCut reg fcount fpos ≤ fcount :=
  min_le_left _ _

theorem rawCut_le_rest : rawCut reg fcount fpos ≤ reg.len.toNat - fpos.toNat :=
  (min_le_right _ _).trans (min_le_left _ _)

theorem rawCut_le_size : rawCut reg fcount fpos ≤ IOBUF_SIZE :=
  (min_le_right _ _).trans (min_le_right _ _)

variable {reg fcount fpos}

/-- What has been cut is not cut again. -/
theorem rawCut_of_le {n : ℕ} (le : n ≤ rawCut reg fcount fpos) : rawCut reg n fpos = n :=
  min_eq_left (le.trans (min_le_right _ _))

end Bounds

theorem cap_eq_min (limit count : ℕ) :
    (if limit < count then limit else count) = min count limit := by
  split
  · exact (min_eq_right (le_of_lt ‹_›)).symm
  · exact (min_eq_left (not_lt.mp ‹_›)).symm

theorem cappedCount_eq_min (mode : ℤ) (reg : Ioreg) (fcount : ℕ) (fpos : ℤ) :
    cappedCount mode reg fcount fpos =
      min fcount (min (regblen mode reg - fpos).toNat IOBUF_SIZE) := by
  have rest : (if regblen mode reg < fpos + fcount then (regblen mode reg - fpos).toNat
      else fcount) = min fcount (regblen mode reg - fpos).toNat := by
    split <;> omega
  simp only [cappedCount, rest]
  rw [cap_eq_min, min_assoc]
  rfl

theorem cappedCount_of_le (mode : ℤ) (reg : Ioreg) {fcount : ℕ} (le : fcount ≤ IOBUF_SIZE)
    (fpos : ℤ) :
    cappedCount mode reg fcount fpos = min fcount (regblen mode reg - fpos).toNat := by
  rw [cappedCount_eq_min, ← min_assoc, min_eq_left ((min_le_left _ _).trans le)]

/-- The buffer is smaller than a page, so the cap at a page does nothing. -/
theorem rawCount_eq_min {reg : Ioreg} {fcount datacnt : ℕ} {fpos : ℤ}
    (asked : (UInt32.ofInt (if toS32 reg.len.toNat - fpos < fcount
      then toS32 (toS32 reg.len.toNat - fpos) else fcount)).toNat = datacnt) :
    rawCount reg fcount fpos = min datacnt IOBUF_SIZE := by
  have page : IOBUF_SIZE ≤ PAGE_SIZE := by decide
  simp only [rawCount, asked]
  rw [cap_eq_min PAGE_SIZE, cap_eq_min IOBUF_SIZE, min_assoc, min_eq_right page]

section Cuts

variable {reg : Ioreg} (small : reg.len.toNat < 2 ^ 31)

include small

theorem toS32_len : toS32 reg.len.toNat = reg.len.toNat :=
  toS32_of_lt (Int.natCast_nonneg _) (by omega)

theorem regblen_of_raw {mode : ℤ} (raw : mode ≠ 0) : regblen mode reg = reg.len.toNat := by
  rw [regblen, if_neg raw]
  exact toS32_len small

theorem rawCount_eq (fcount : ℕ) {fpos : ℤ} (nonnegative : 0 ≤ fpos)
    (below : fpos < reg.len.toNat) : rawCount reg fcount fpos = rawCut reg fcount fpos := by
  have length := toS32_len small
  have rest := toNat_ofInt_rest reg nonnegative below
  rw [rawCut, ← min_assoc]
  apply rawCount_eq_min
  split
  · omega
  · rw [toNat_ofInt]
    omega

theorem cappedCount_eq {mode : ℤ} (raw : mode ≠ 0) (fcount : ℕ) {fpos : ℤ}
    (nonnegative : 0 ≤ fpos) : cappedCount mode reg fcount fpos = rawCut reg fcount fpos := by
  have rest : ((reg.len.toNat : ℤ) - fpos).toNat = reg.len.toNat - fpos.toNat := by omega
  rw [cappedCount_eq_min, rawCut, regblen_of_raw small raw, rest]

end Cuts

/-! ## A read of raw bytes -/

section Memory

variable {β : Type} {bus : Bus β} {cells : β → UInt32 → UInt8} (memory : bus.IsMemory cells)
  (map : FpgaMap)

include memory

/-- A raw read hands out the words of its range and stores nothing. -/
theorem ioregRegRead_of_memory {reg : Ioreg} (small : reg.len.toNat < 2 ^ 31) {mode : ℤ}
    (raw : mode ≠ 0) {own : Bool} {env : IoEnv} (served : Served reg own env) (fcount : ℕ)
    {fpos : ℤ} (nonnegative : 0 ≤ fpos) (s : IoState β) :
    let call := ioregRegRead bus map reg mode env own fcount fpos s
    let count := 2 * (rawCut reg fcount fpos / 2)
    call.retval = count ∧ (reg.mode &&& IORM_PIPE = 0 → call.fpos = fpos + count) ∧
      call.copied =
        fetch (cells s.bus) (getMappedLocation map reg.loc + UInt32.ofInt fpos) count ∧
      cells call.io.bus = cells s.bus ∧ stores call.io.trace = stores s.trace := by
  intro call count
  have read := ioregRegRead_of_served bus map served mode fcount fpos s
  by_cases ends : regblen mode reg < fpos + fcount ∧ regblen mode reg ≤ fpos
  · have length := regblen_of_raw small raw
    have nothing : count = 0 := by
      simp only [count, rawCut]
      omega
    rw [if_pos ends] at read
    simp only [call, read, nothing]
    simp [Call.leave, IoState.log, stores, IoEvent.stored]
  · rw [if_neg ends, cappedCount_eq small raw fcount nonnegative,
      readIobuf_raw bus map reg raw] at read
    have words := recvWords_of_memory memory (rawCut reg fcount fpos / 2)
      (getMappedLocation map reg.loc + UInt32.ofInt fpos) (s.log [.getTask, .getHwrops, .down])
    have silent := @recvWords_stores _ bus (rawCut reg fcount fpos / 2)
      (getMappedLocation map reg.loc + UInt32.ofInt fpos) (s.log [.getTask, .getHwrops, .down])
    simp only [call, read]
    refine ⟨rfl, fun seekable => if_neg (not_not.mpr seekable), words.1, words.2, ?_⟩
    simp only [IoState.log, stores_append] at silent ⊢
    rw [silent]
    simp [stores, IoEvent.stored]

/-! ## What has been written is read again -/

/-- A raw write stores the words of its range. -/
theorem ioregRegWrite_of_memory {reg : Ioreg} (small : reg.len.toNat < 2 ^ 31) {own : Bool}
    {env : IoEnv} (served : Served reg own env) (copied : env.fault = false) (fcount : ℕ)
    {fpos : ℤ} (nonnegative : 0 ≤ fpos) (below : fpos < reg.len.toNat) (s : IoState β) :
    let call := ioregRegWrite bus map reg 1 env own fcount fpos s
    let count := 2 * (rawCut reg fcount fpos / 2)
    let dst := getMappedLocation map reg.loc + UInt32.ofInt fpos
    call.retval = count ∧ (reg.mode &&& IORM_PIPE = 0 → call.fpos = fpos + count) ∧
      cells call.io.bus = deposit (cells s.bus) dst ((List.range count).map env.user) ∧
      stores call.io.trace = stores s.trace ++ byteAddrs dst count := by
  intro call count dst
  have whole : count ≤ rawCut reg fcount fpos := Nat.mul_div_le _ 2
  have short := rawCut_le_size reg fcount fpos
  have page : IOBUF_SIZE < 2 ^ 32 := by decide
  have front : ((List.range (rawCut reg fcount fpos)).map env.user).take count =
      (List.range count).map env.user := by
    rw [← List.map_take, List.take_range, Nat.min_eq_left whole]
  have write := ioregRegWrite_raw bus map served below fcount s
  rw [if_neg (Bool.eq_false_iff.mp copied), rawCount_eq small fcount nonnegative below,
    writeIobuf_eq] at write
  have enough : count ≤ ((List.range (rawCut reg fcount fpos)).map env.user).length := by
    rwa [List.length_map, List.length_range]
  have sent := sendWords_of_memory memory (rawCut reg fcount fpos / 2) dst
    (s.log [.getTask, .getHwrops, .down]) enough (by omega)
  have stored := @sendWords_stores _ bus (rawCut reg fcount fpos / 2)
    ((List.range (rawCut reg fcount fpos)).map env.user) dst (s.log [.getTask, .getHwrops, .down])
  rw [front] at sent
  simp only [call, write]
  refine ⟨rfl, fun seekable => if_neg fun pipe => pipe.1 seekable, sent, ?_⟩
  simp only [IoState.log, stores_append] at stored ⊢
  rw [stored]
  simp [stores, IoEvent.stored, count]

/-- A raw write that stores anything stores the front of its data from its
position on, and nothing else; a read of as many bytes at this position returns
them. -/
theorem raw_write_read {reg : Ioreg} (seekable : reg.mode &&& IORM_PIPE = 0)
    (small : reg.len.toNat < 2 ^ 31) {p : ℤ} (below : p < reg.len.toNat) {count fcount : ℕ}
    (accepted : rwVerifyArea count p = some fcount) (own : Bool) (env : IoEnv) (s : IoState β)
    (written : 0 < (ioregRegWrite bus map reg 1 env own fcount p s).retval) :
    let m := getMappedLocation map reg.loc
    let w := ioregRegWrite bus map reg 1 env own fcount p s
    ∃ n : ℕ, w.retval = n ∧ n ≤ count ∧ p + n ≤ reg.len.toNat ∧
      cells w.io.bus = deposit (cells s.bus) (m + UInt32.ofInt p) ((List.range n).map env.user) ∧
      stores w.io.trace = stores s.trace ++ byteAddrs (m + UInt32.ofInt p) n ∧
      w.fpos = p + n ∧ rwVerifyArea n p = some n ∧
      ∀ (own : Bool) (reading : IoEnv),
        let r := ioregRegRead bus map reg 1 reading own n p w.io
        cells r.io.bus = cells w.io.bus ∧ stores r.io.trace = stores w.io.trace ∧
          (Served reg own reading → r.retval = n ∧ r.copied = (List.range n).map env.user) := by
  intro m w
  have nonnegative := nonneg_of_rwVerifyArea accepted
  have served := served_of_written bus map below written
  have copied := copied_of_written bus map served below written
  rcases ioregRegWrite_of_memory memory map small served copied fcount nonnegative below s
    with ⟨retval, position, stored, traced⟩
  have whole : 2 * (rawCut reg fcount p / 2) ≤ rawCut reg fcount p := Nat.mul_div_le _ 2
  generalize amount : 2 * (rawCut reg fcount p / 2) = n at retval position stored traced whole
  have again : 2 * (rawCut reg n p / 2) = n := by
    rw [rawCut_of_le whole]
    omega
  have asked : n ≤ count :=
    (whole.trans (rawCut_le_count reg fcount p)).trans (le_of_rwVerifyArea accepted)
  have inside : p + n ≤ reg.len.toNat := by
    have := whole.trans (rawCut_le_rest reg fcount p)
    omega
  have page : n ≤ MAX_RW_COUNT :=
    (whole.trans (rawCut_le_size reg fcount p)).trans (by decide)
  refine ⟨n, retval, asked, inside, stored, traced, position seekable, ?_, ?_⟩
  · exact rwVerifyArea_of_le nonnegative (by omega) page
  · intro own reading r
    by_cases ready : Served reg own reading
    · rcases ioregRegRead_of_memory memory map small (by decide : (1 : ℤ) ≠ 0) ready n
        nonnegative w.io with ⟨returned, -, handed, kept, silent⟩
      rw [again] at returned handed
      refine ⟨kept, silent, fun _ => ⟨returned, ?_⟩⟩
      have length : ((List.range n).map env.user).length = n := by
        rw [List.length_map, List.length_range]
      have found := @fetch_deposit (cells s.bus) (m + UInt32.ofInt p)
        ((List.range n).map env.user) (by omega)
      rw [length, ← stored] at found
      exact handed.trans found
    · have idle := (ioregRegRead_of_not_served bus map ready 1 n p w.io).1
      exact ⟨congrArg cells idle.bus_eq, idle.stores_eq, fun served => absurd served ready⟩

end Memory

/-- Two bytes written to `reg_led` and read again. -/
theorem raw_write_read_led :
    let w := ioregRegWrite memoryBus sampleMap regLed 1 writesOne false 2 0 ⟨fun _ => 0, []⟩
    let r := ioregRegRead memoryBus sampleMap regLed 1 writesOne false 2 0 w.io
    0 < w.retval ∧ w.retval = 2 ∧
      w.io.bus = deposit (fun _ => 0)
        (getMappedLocation sampleMap regLed.loc + UInt32.ofInt 0) [49, 49] ∧
      w.fpos = 2 ∧ r.io.bus = w.io.bus ∧ r.retval = 2 ∧ r.copied = [49, 49] := by
  intro w r
  have two : w.retval = 2 := by decide
  have written : 0 < w.retval := by
    rw [two]
    decide
  rcases raw_write_read memoryBus_isMemory sampleMap (by decide) (by decide) (by decide)
    (by decide : rwVerifyArea 2 0 = some 2) false writesOne ⟨fun _ => 0, []⟩ written
    with ⟨n, retval, -, -, stored, -, position, -, again⟩
  obtain rfl : n = 2 := Int.ofNat.inj (retval.symm.trans two)
  rcases again false writesOne with ⟨kept, -, served⟩
  rcases served ⟨Or.inl (by decide), rfl, rfl, rfl, rfl⟩ with ⟨returned, copied⟩
  exact ⟨written, two, stored, position, kept, returned, copied⟩

/-! ## Reading a register from its start -/

/-- The calls of a reader, in order: the counts, what each call meets, and
whether it is at the file's own position. -/
structure Reader where
  counts : ℕ → ℕ
  envs : ℕ → IoEnv
  own : ℕ → Bool

/-- A reader on the way: the position, the bytes so far, and the device. -/
structure Reading (β : Type) where
  fpos : ℤ
  delivered : List UInt8
  io : IoState β

/-- The bytes that the first `k` calls can ask for, in whole words. -/
def Reader.asked (reader : Reader) (k : ℕ) : ℕ :=
  2 * ∑ j ∈ Finset.range k, min (reader.counts j) IOBUF_SIZE / 2

theorem Reader.asked_succ (reader : Reader) (k : ℕ) :
    reader.asked (k + 1) = reader.asked k + 2 * (min (reader.counts k) IOBUF_SIZE / 2) := by
  rw [asked, asked, Finset.sum_range_succ, Nat.mul_add]

section Sequence

variable {β : Type} (bus : Bus β) (map : FpgaMap) (reg : Ioreg) (mode : ℤ) (reader : Reader)
  (s : IoState β)

/-- Call `k` of the reader. -/
def Reader.call (k : ℕ) (r : Reading β) : Call β :=
  ioregRegRead bus map reg mode (reader.envs k) (reader.own k) (reader.counts k) r.fpos r.io

/-- The reader after `k` calls. -/
def Reader.after : ℕ → Reading β
  | 0 => ⟨0, [], s⟩
  | k + 1 =>
      let r := after k
      let call := reader.call bus map reg mode k r
      ⟨call.fpos, r.delivered ++ call.copied, call.io⟩

/-- What call `k` returns. -/
def Reader.answer (k : ℕ) : ℤ :=
  (reader.call bus map reg mode k (reader.after bus map reg mode s k)).retval

/-- The bytes up to the first 0 are those of the register, and 0 is returned at
its end only. -/
def Reader.Delivers (cells : β → UInt32 → UInt8) : Prop :=
  (∃ k, reader.answer bus map reg mode s k = 0 ∧
    (∀ j < k, reader.answer bus map reg mode s j ≠ 0) ∧
    (reader.after bus map reg mode s k).delivered =
      fetch (cells s.bus) (getMappedLocation map reg.loc) reg.len.toNat) ∧
  ∀ k, reader.answer bus map reg mode s k = 0 →
    (reg.len.toNat : ℤ) ≤ (reader.after bus map reg mode s k).fpos

/-- How far the counts of the first `k` calls take a reader: to the end of the
last whole word at most. -/
def Reader.place (k : ℕ) : ℕ :=
  min (2 * (reg.len.toNat / 2)) (reader.asked k)

theorem Reader.place_succ (k : ℕ) :
    reader.place reg (k + 1) =
      reader.place reg k + 2 * (rawCut reg (reader.counts k) (reader.place reg k : ℕ) / 2) := by
  rw [place, place, asked_succ, rawCut, Int.toNat_natCast, min_left_comm]
  generalize min (reader.counts k) IOBUF_SIZE = words
  rw [asked]
  rcases le_total (2 * (reg.len.toNat / 2))
    (2 * ∑ j ∈ Finset.range k, min (reader.counts j) IOBUF_SIZE / 2) with ended | before
  · rw [min_eq_left ended]
    omega
  · rw [min_eq_right before]
    omega

theorem Reader.place_succ_of_le {k : ℕ} (ended : reg.len.toNat ≤ reader.asked k) :
    reader.place reg (k + 1) = reader.place reg k := by
  rw [place, place, asked_succ]
  omega

/-- The reader has come as far as its counts take it, and has what stands there. -/
structure Reader.Placed (cells : β → UInt32 → UInt8) (k : ℕ) (r : Reading β) : Prop where
  fpos : r.fpos = reader.place reg k
  delivered : r.delivered =
    fetch (cells s.bus) (getMappedLocation map reg.loc) (reader.place reg k)
  kept : cells r.io.bus = cells s.bus

variable {bus map reg mode reader s}
variable {cells : β → UInt32 → UInt8} (memory : bus.IsMemory cells)
  (seekable : reg.mode &&& IORM_PIPE = 0) (small : reg.len.toNat < 2 ^ 31) (raw : mode ≠ 0)

include memory seekable small raw

/-- One call of a reader that is served. -/
theorem Reader.Placed.call {k : ℕ} (placed : reader.Placed map reg s cells k
      (reader.after bus map reg mode s k))
    (served : Served reg (reader.own k) (reader.envs k)) :
    let call := reader.call bus map reg mode k (reader.after bus map reg mode s k)
    let count := 2 * (rawCut reg (reader.counts k) (reader.place reg k : ℕ) / 2)
    call.retval = count ∧ call.fpos = reader.place reg k + count ∧
      call.copied = fetch (cells s.bus)
        (getMappedLocation map reg.loc + UInt32.ofNat (reader.place reg k)) count ∧
      cells call.io.bus = cells s.bus := by
  intro call count
  have answered : call = ioregRegRead bus map reg mode (reader.envs k) (reader.own k)
      (reader.counts k) (reader.place reg k : ℕ) (reader.after bus map reg mode s k).io := by
    rw [← placed.fpos]
    rfl
  rcases ioregRegRead_of_memory memory map small raw served (reader.counts k)
    (Int.natCast_nonneg (reader.place reg k)) (reader.after bus map reg mode s k).io
    with ⟨retval, position, handed, kept, -⟩
  rw [placed.kept, ofInt_natCast_eq] at handed
  rw [placed.kept] at kept
  rw [answered]
  exact ⟨retval, position seekable, handed, kept⟩

/-- A reader whose call is served, or that has nothing left to read, is placed
again. -/
theorem Reader.Placed.succ {k : ℕ} (placed : reader.Placed map reg s cells k
      (reader.after bus map reg mode s k))
    (served : reader.asked k < reg.len.toNat → Served reg (reader.own k) (reader.envs k)) :
    reader.Placed map reg s cells (k + 1) (reader.after bus map reg mode s (k + 1)) := by
  by_cases ready : Served reg (reader.own k) (reader.envs k)
  · rcases placed.call memory seekable small raw ready with ⟨-, position, handed, kept⟩
    constructor
    · rw [place_succ, Nat.cast_add]
      exact position
    · rw [place_succ, fetch_add, ← placed.delivered, ← handed]
      rfl
    · exact kept
  · have ended : reg.len.toNat ≤ reader.asked k := not_lt.mp fun below => ready (served below)
    have idle := (ioregRegRead_of_not_served bus map ready mode (reader.counts k)
      (reader.after bus map reg mode s k).fpos (reader.after bus map reg mode s k).io).1
    constructor
    · rw [place_succ_of_le reg reader ended]
      exact idle.fpos_eq.trans placed.fpos
    · rw [place_succ_of_le reg reader ended, ← placed.delivered]
      exact (congrArg (_ ++ ·) idle.copied_eq).trans (List.append_nil _)
    · exact (congrArg cells idle.bus_eq).trans placed.kept

/-- A reader all of whose calls are served until it has asked for the register. -/
theorem Reader.placed_after {k : ℕ} (served : ∀ j < k, reader.asked j < reg.len.toNat →
      Served reg (reader.own j) (reader.envs j)) :
    reader.Placed map reg s cells k (reader.after bus map reg mode s k) := by
  induction k with
  | zero =>
      have start : reader.place reg 0 = 0 := by simp [place, asked]
      constructor
      · rw [start]
        rfl
      · rw [start]
        rfl
      · rfl
  | succ k ih =>
      exact Placed.succ memory seekable small raw
        (ih fun j lt => served j (Nat.lt_succ_of_lt lt)) (served k (Nat.lt_succ_self k))

/-- A call returns 0 if it is not served, asks for less than a word, or finds no
word left. -/
theorem Reader.Placed.answer_eq_zero_iff {k : ℕ} (placed : reader.Placed map reg s cells k
      (reader.after bus map reg mode s k)) :
    reader.answer bus map reg mode s k = 0 ↔
      ¬ Served reg (reader.own k) (reader.envs k) ∨ reader.counts k < 2 ∨
        reg.len.toNat < reader.place reg k + 2 := by
  by_cases ready : Served reg (reader.own k) (reader.envs k)
  · rw [answer, (placed.call memory seekable small raw ready).1, rawCut, Int.toNat_natCast]
    have size : IOBUF_SIZE = 4084 := rfl
    simp only [ready, not_true, false_or]
    omega
  · have refused := (ioregRegRead_of_not_served bus map ready mode (reader.counts k)
      (reader.after bus map reg mode s k).fpos (reader.after bus map reg mode s k).io).2
    rw [if_neg fun pipe => pipe.1 seekable] at refused
    exact iff_of_true refused (Or.inl ready)

end Sequence

section Delivery

variable {β : Type} {bus : Bus β} {cells : β → UInt32 → UInt8} (memory : bus.IsMemory cells)
  (map : FpgaMap) {reg : Ioreg} (seekable : reg.mode &&& IORM_PIPE = 0) {mode : ℤ}
  (raw : mode ≠ 0) (reader : Reader) (s : IoState β)

include seekable raw

/-- The first read of a register of 2^31 bytes or more returns 0: its length is
negative as a `ssize_t`. -/
theorem Reader.answer_of_long (long : 2 ^ 31 ≤ reg.len.toNat) :
    reader.answer bus map reg mode s 0 = 0 := by
  by_cases ready : Served reg (reader.own 0) (reader.envs 0)
  · have negative : regblen mode reg < 0 := by
      have := reg.len.toNat_lt
      rw [regblen, if_neg raw]
      simp only [toS32, wrapSigned]
      omega
    have read := ioregRegRead_of_served bus map ready mode (reader.counts 0) 0 s
    rw [if_pos (by omega)] at read
    exact congrArg Call.retval read
  · have refused := (ioregRegRead_of_not_served bus map ready mode (reader.counts 0) 0 s).2
    rwa [if_neg fun pipe => pipe.1 seekable] at refused

omit seekable raw in
/-- Counts of at least a word add up to any length. -/
theorem Reader.exists_le_asked {length : ℕ}
    (words : ∀ k, reader.asked k < length → 2 ≤ reader.counts k) :
    ∃ k, length ≤ reader.asked k := by
  have grows (k : ℕ) : length ≤ reader.asked k ∨ k ≤ reader.asked k := by
    induction k with
    | zero => exact Or.inr (Nat.zero_le _)
    | succ k ih =>
        have size : IOBUF_SIZE = 4084 := rfl
        have := words k
        rw [asked_succ]
        omega
  exact ⟨length, by have := grows length; omega⟩

include memory

/-- Reading a register from its start until 0 is returned delivers all of it
exactly if its length is even and below 2^31, and as long as there is something
left every call asks for at least a word and gets through. -/
theorem reads_deliver_iff :
    reader.Delivers bus map reg mode s cells ↔
      reg.len.toNat < 2 ^ 31 ∧ reg.len.toNat % 2 = 0 ∧
        ∀ k, reader.asked k < reg.len.toNat →
          2 ≤ reader.counts k ∧ Served reg (reader.own k) (reader.envs k) := by
  constructor
  · rintro ⟨⟨k, -, -, bytes⟩, only⟩
    have small : reg.len.toNat < 2 ^ 31 := by
      by_contra long
      have start := only 0 (reader.answer_of_long map seekable raw s (not_lt.mp long))
      simp only [Reader.after] at start
      omega
    have calls (k : ℕ) (below : reader.asked k < reg.len.toNat) :
        2 ≤ reader.counts k ∧ Served reg (reader.own k) (reader.envs k) := by
      induction k using Nat.strong_induction_on with
      | _ k ih =>
          have placed : reader.Placed map reg s cells k (reader.after bus map reg mode s k) :=
            Reader.placed_after memory seekable small raw fun j lt left => (ih j lt left).2
          by_contra broken
          have zero := (placed.answer_eq_zero_iff memory seekable small raw).mpr (by
            by_cases served : Served reg (reader.own k) (reader.envs k)
            · exact Or.inr (Or.inl (not_le.mp fun words => broken ⟨words, served⟩))
            · exact Or.inl served)
          have place := only k zero
          rw [placed.fpos, Reader.place] at place
          omega
    have placed : reader.Placed map reg s cells k (reader.after bus map reg mode s k) :=
      Reader.placed_after memory seekable small raw fun j _ left => (calls j left).2
    have whole := congrArg List.length (placed.delivered.symm.trans bytes)
    rw [fetch_length, fetch_length, Reader.place] at whole
    exact ⟨small, by omega, calls⟩
  · rintro ⟨small, even, calls⟩
    have placed (k : ℕ) : reader.Placed map reg s cells k (reader.after bus map reg mode s k) :=
      Reader.placed_after memory seekable small raw fun j _ left => (calls j left).2
    have ended (k : ℕ) (zero : reader.answer bus map reg mode s k = 0) :
        reader.place reg k = reg.len.toNat := by
      have reason := ((placed k).answer_eq_zero_iff memory seekable small raw).mp zero
      have words := calls k
      rw [Reader.place, Reader.asked] at *
      grind
    have zero : ∃ k, reader.answer bus map reg mode s k = 0 := by
      rcases reader.exists_le_asked fun k left => (calls k left).1 with ⟨k, le⟩
      refine ⟨k, ((placed k).answer_eq_zero_iff memory seekable small raw).mpr ?_⟩
      rw [Reader.place]
      omega
    constructor
    · refine ⟨Nat.find zero, Nat.find_spec zero, fun j => Nat.find_min zero, ?_⟩
      rw [(placed _).delivered, ended _ (Nat.find_spec zero)]
    · intro k zero
      rw [(placed k).fpos, ended k zero]

end Delivery

/-- The register `reg_file` of `gpmc_test_top.sym`: a length of 127 bytes. -/
def regFile : Ioreg where
  strtab := []
  name := 0
  mode := 3
  loc := 0x09800000
  len := 0x7f
  hwraddr := ⟨0, 0⟩

/-- A reader that asks for the whole register every time. -/
def wholeReader : Reader where
  counts _ := 127
  envs _ := writesOne
  own _ := false

theorem wholeReader_served (reg : Ioreg) (seekable : reg.mode &&& IORM_PIPE = 0) (k : ℕ) :
    Served reg (wholeReader.own k) (wholeReader.envs k) :=
  ⟨Or.inl seekable, rfl, rfl, rfl, rfl⟩

/-- The second call returns 0 while the last byte of the register has not been
delivered. -/
theorem last_byte_of_regFile_withheld :
    (wholeReader.after memoryBus sampleMap regFile 1 ⟨fun _ => 0, []⟩ 1).fpos = 126 ∧
      wholeReader.answer memoryBus sampleMap regFile 1 ⟨fun _ => 0, []⟩ 1 = 0 ∧
      ¬ wholeReader.Delivers memoryBus sampleMap regFile 1 ⟨fun _ => 0, []⟩ id := by
  have placed : wholeReader.Placed sampleMap regFile ⟨fun _ => 0, []⟩ id 1
      (wholeReader.after memoryBus sampleMap regFile 1 ⟨fun _ => 0, []⟩ 1) :=
    Reader.placed_after memoryBus_isMemory rfl (by decide) (by decide)
      fun j _ _ => wholeReader_served regFile rfl j
  have place : wholeReader.place regFile 1 = 126 := by decide
  have position := placed.fpos
  rw [place] at position
  have zero := (placed.answer_eq_zero_iff memoryBus_isMemory rfl (by decide) (by decide)).mpr
    (Or.inr (Or.inr (by rw [place]; decide)))
  refine ⟨position, zero, fun delivers => ?_⟩
  have ends := delivers.2 1 zero
  rw [position] at ends
  exact absurd ends (by decide)

/-- The register of two bytes is delivered. -/
theorem reads_deliver_iff_led :
    wholeReader.Delivers memoryBus sampleMap regLed 1 ⟨fun _ => 0, []⟩ id :=
  (reads_deliver_iff memoryBus_isMemory sampleMap rfl (by decide) wholeReader
    ⟨fun _ => 0, []⟩).mpr ⟨by decide, by decide, fun k _ =>
      ⟨(by decide : 2 ≤ 127), wholeReader_served regLed rfl k⟩⟩

end Rhino.Ioreg
