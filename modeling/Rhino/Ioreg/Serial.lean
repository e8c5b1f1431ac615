import Rhino.Ioreg.Confinement
import Rhino.Ioreg.Shared

/-!
# Register calls one at a time

A call that has the buffer and the bus to itself computes, in its steps, what
`ioregRegRead` and `ioregRegWrite` say.  With the lock this carries over to every
interleaving: the calls return, and leave on the bus, what they would if they
were made one at a time in the order in which they acquired the semaphore.
-/

namespace Rhino.Ioreg

open Rhino.Bof Rhino.Bytes Rhino.Kernel Rhino.Loader Rhino.Transition

section Alone

variable {β : Type} (bus : Bus β) (map : FpgaMap)

/-- What the caller sees of a call. -/
def Call.ending (call : Call β) : Ending :=
  ⟨call.retval, call.fpos, call.copied⟩

/-- The call as a whole; `acquired` says whether it gets the semaphore. -/
def Request.perform (req : Request) (acquired : Bool) (device : β) : Call β :=
  let env := { req.env with iobuf := acquired }
  match req.direction with
  | .read => ioregRegRead bus map req.reg req.mode env req.own req.fcount req.fpos ⟨device, []⟩
  | .write => ioregRegWrite bus map req.reg req.mode env req.own req.fcount req.fpos ⟨device, []⟩

/-- The call has returned `ending` and has not touched the device. -/
def Call.LeftAt (call : Call β) (ending : Ending) (device : β) : Prop :=
  call.ending = ending ∧ call.io.bus = device

/-! ## Up to the semaphore -/

/-- The entry and the call return alike, or both go on. -/
def Alike (device : β) (goesOn : Stage → Call β → Prop) (stage : Stage) (call : Call β) : Prop :=
  (∃ ending, stage = .done ending ∧ call.LeftAt ending device) ∨ goesOn stage call

theorem Alike.unless {device : β} {goesOn : Stage → Call β → Prop} {condition : Prop}
    [Decidable condition] {ending : Ending} {stage : Stage} {left call : Call β}
    (leaves : left.LeftAt ending device)
    (otherwise : ¬ condition → Alike device goesOn stage call) :
    Alike device goesOn (if condition then .done ending else stage)
      (if condition then left else call) := by
  split
  · exact Or.inl ⟨_, rfl, leaves⟩
  · exact otherwise ‹_›

/-- A read that returns before it asks for the buffer, and one that does not. -/
theorem readEntry_spec (req : Request) (acquired : Bool) (device : β) :
    Alike device
      (fun stage call => stage = .getIobuf ∧
        (acquired = false → call.LeftAt (req.leave 0) device) ∧
        (acquired = true → call = readIobuf bus map req.reg req.mode
          (cappedCount req.mode req.reg req.fcount req.fpos) req.fpos ⟨device, []⟩))
      req.readEntry
      (ioregRegRead bus map req.reg req.mode { req.env with iobuf := acquired } req.own
        req.fcount req.fpos ⟨device, []⟩) := by
  unfold Request.readEntry ioregRegRead
  refine .unless ⟨rfl, rfl⟩ fun _ => .unless ⟨rfl, rfl⟩ fun _ => .unless ⟨rfl, rfl⟩ fun _ =>
    .unless ⟨rfl, rfl⟩ fun _ => ?_
  cases req.env.hwrops with
  | absent => exact Or.inl ⟨_, rfl, rfl, rfl⟩
  | incomplete => exact Or.inl ⟨_, rfl, rfl, rfl⟩
  | complete =>
      refine Or.inr ⟨rfl, ?_, ?_⟩
      · rintro rfl
        exact ⟨rfl, rfl⟩
      · rintro rfl
        rfl

/-- What the write sends once it has the buffer, if it does not leave with it. -/
def Request.payload (req : Request) : Option (ℕ × List UInt8) :=
  if req.mode = 1 then
    if req.env.fault then none
    else
      let datacnt := rawCount req.reg req.fcount req.fpos
      some (datacnt, loadAt req.env.user 0 datacnt)
  else some (4, u32Bytes (UInt32.ofInt req.num))

/-- The end of a write that has the buffer. -/
def Request.finishWrite (req : Request) (device : β) : Ending × β :=
  match req.payload with
  | none => (req.leave (-einval), device)
  | some (size, data) =>
      let call := writeIobuf bus map req.reg size data req.fpos ⟨device, []⟩
      (call.ending, call.io.bus)

/-- The trace is a record only. -/
theorem sendWords_bus (count : ℕ) (data : List UInt8) (dst : UInt32) {s t : IoState β}
    (same : s.bus = t.bus) :
    (sendWords bus count data dst s).bus = (sendWords bus count data dst t).bus := by
  induction count generalizing data dst s t with
  | zero => exact same
  | succ count ih =>
      rw [sendWords, sendWords]
      apply ih
      rw [same]

theorem writeIobuf_leftAt (reg : Ioreg) (size : ℕ) (data : List UInt8) (fpos : ℤ)
    {s t : IoState β} (same : s.bus = t.bus) :
    (writeIobuf bus map reg size data fpos s).LeftAt
      (writeIobuf bus map reg size data fpos t).ending
      (writeIobuf bus map reg size data fpos t).io.bus := by
  have device := sendWords_bus bus (size / 2) data
    (getMappedLocation map reg.loc + UInt32.ofInt fpos) same
  unfold writeIobuf rhinoSendIobuf
  dsimp only
  split
  · exact ⟨rfl, device⟩
  · exact ⟨rfl, device⟩

/-- The environment is that of the request, but for the semaphore. -/
structure Request.Meets (req : Request) (env : IoEnv) (acquired : Bool) : Prop where
  iobuf : env.iobuf = acquired
  user : env.user = req.env.user
  fault : env.fault = req.env.fault
  stack : env.stack = req.env.stack

theorem cpUdataRaw_eq {req : Request} {env : IoEnv} (raw : req.mode = 1)
    (meets : req.Meets env true) :
    ioregRegCpUdataRaw req.reg env req.fcount req.fpos = (req.payload, [.down]) := by
  unfold ioregRegCpUdataRaw Request.payload
  rw [if_pos raw, meets.iobuf, meets.fault, meets.user]
  cases req.env.fault with
  | true => rfl
  | false => simp [loadAt]

/-- The checks of `ioreg_reg_cp_udata_ascii` before it asks for the buffer. -/
structure Request.TextFits (req : Request) : Prop where
  fpos : req.fpos = 0
  fcount : req.fcount ≤ NUMTMPBUF
  fault : req.env.fault = false
  num : 0 ≤ req.num

theorem cpUdataAscii_eq {req : Request} {env : IoEnv} (text : req.mode ≠ 1)
    (fits : req.TextFits) (acquired : Bool) (meets : req.Meets env acquired) :
    ioregRegCpUdataAscii env req.fcount req.fpos =
      if acquired then (req.payload, [.down]) else (none, []) := by
  have room : ¬ IOBUF_SIZE < req.fcount := by
    have small := fits.fcount
    simp only [NUMTMPBUF, IOBUF_SIZE, PAGE_SIZE] at small ⊢
    omega
  unfold ioregRegCpUdataAscii Request.payload
  rw [if_neg (not_not.mpr fits.fpos), if_neg (not_lt.mpr fits.fcount), if_neg text,
    meets.iobuf, meets.user, meets.fault, meets.stack,
    if_neg (Bool.eq_false_iff.mp fits.fault)]
  change (if req.num < 0 then _ else _) = _
  rw [if_neg (not_lt.mpr fits.num), if_neg room]
  cases acquired with
  | true => rfl
  | false => rfl

theorem writeEntry_spec (req : Request) (acquired : Bool) (device : β) :
    Alike device
      (fun stage call => stage = .getIobuf ∧ (req.mode ≠ 1 → req.TextFits) ∧
        (acquired = false → call.LeftAt (req.leave (-einval)) device) ∧
        (acquired = true → call.LeftAt (req.finishWrite bus map device).1
          (req.finishWrite bus map device).2))
      req.writeEntry
      (ioregRegWrite bus map req.reg req.mode { req.env with iobuf := acquired } req.own
        req.fcount req.fpos ⟨device, []⟩) := by
  unfold Request.writeEntry ioregRegWrite
  refine .unless ⟨rfl, rfl⟩ fun _ => .unless ⟨rfl, rfl⟩ fun _ => .unless ⟨rfl, rfl⟩ fun _ =>
    .unless ⟨rfl, rfl⟩ fun _ => ?_
  cases req.env.hwrops with
  | absent => exact Or.inl ⟨_, rfl, rfl, rfl⟩
  | incomplete => exact Or.inl ⟨_, rfl, rfl, rfl⟩
  | complete =>
      dsimp only
      by_cases raw : req.mode = 1
      · rw [if_pos raw, if_pos raw]
        refine Or.inr ⟨rfl, fun text => absurd raw text, ?_, ?_⟩
        · rintro rfl
          exact ⟨rfl, rfl⟩
        · rintro rfl
          rw [cpUdataRaw_eq raw, Request.finishWrite]
          · cases req.payload with
            | none => exact ⟨rfl, rfl⟩
            | some filled => exact writeIobuf_leftAt bus map _ _ _ _ rfl
          · exact ⟨rfl, rfl, rfl, rfl⟩
      · rw [if_neg raw, if_neg raw]
        by_cases fits : req.TextFits
        · rw [if_neg (not_not.mpr fits.fpos), if_neg (not_lt.mpr fits.fcount),
            if_neg (Bool.eq_false_iff.mp fits.fault), if_neg (not_lt.mpr fits.num),
            cpUdataAscii_eq raw fits acquired]
          · refine Or.inr ⟨rfl, fun _ => fits, ?_, ?_⟩
            · rintro rfl
              exact ⟨rfl, rfl⟩
            · rintro rfl
              rw [if_pos rfl, Request.finishWrite]
              cases req.payload with
              | none => exact ⟨rfl, rfl⟩
              | some filled => exact writeIobuf_leftAt bus map _ _ _ _ rfl
          · exact ⟨rfl, rfl, rfl, rfl⟩
        · left
          unfold ioregRegCpUdataAscii
          by_cases fpos : req.fpos = 0
          · rw [if_neg (not_not.mpr fpos), if_neg (not_not.mpr fpos)]
            by_cases fcount : NUMTMPBUF < req.fcount
            · rw [if_pos fcount, if_pos fcount]
              exact ⟨_, rfl, rfl, rfl⟩
            rw [if_neg fcount, if_neg fcount]
            dsimp only
            by_cases fault : req.env.fault = true
            · rw [if_pos fault, if_pos fault]
              exact ⟨_, rfl, rfl, rfl⟩
            rw [if_neg fault, if_neg fault]
            by_cases num : req.num < 0
            · rw [if_pos num]
              refine ⟨_, rfl, ?_⟩
              have same : convertInput (fun i => if i < req.fcount then req.env.user i
                  else req.env.stack i) req.fcount < 0 := num
              rw [if_pos same]
              exact ⟨rfl, rfl⟩
            · exact absurd ⟨fpos, not_lt.mp fcount, Bool.eq_false_iff.mpr fault,
                not_lt.mp num⟩ fits
          · rw [if_pos fpos, if_pos fpos]
            exact ⟨_, rfl, rfl, rfl⟩

/-! ## The steps of a read -/

variable {ι : Type} (requests : ι → Request) (i : ι) (gaveUp : Bool)

/-- The loop of `rhino_recv_iobuf` from turn `j` on. -/
theorem reaches_received (trace : List IoEvent) (j k : ℕ) (src : UInt32) (page : RhinoPage)
    (device : β) :
    (ioregProgram bus map requests).Reaches i gaveUp
      (.recvWord j (j + k) src, ⟨page, device⟩)
      (.received ((j + k : ℕ) * 2),
        ⟨{ page with data := storeAt page.data (2 * j) (recvWords bus k src ⟨device, trace⟩).1 },
          (recvWords bus k src ⟨device, trace⟩).2.bus⟩) := by
  induction k generalizing trace j src page device with
  | zero =>
      apply Program.Reaches.step
      simp [Program.alone, ioregProgram, Request.next, recvWords]
  | succ k ih =>
      have turn := ih (trace ++ [.readw src]) (j + 1) (src + 2)
        { page with data := storeAt page.data (2 * j) (u16Bytes (bus.readw src device).1) }
        (bus.readw src device).2
      have place : 2 * (j + 1) = 2 * j + (u16Bytes (bus.readw src device).1).length := by
        rw [u16Bytes_length, Nat.mul_succ]
      rw [place, storeAt_storeAt, Nat.add_right_comm, Nat.add_assoc] at turn
      apply Program.Reaches.head _ turn
      simp [Program.alone, ioregProgram, Request.next]

/-- The size that a read gives the buffer. -/
def Request.recvSize (req : Request) : ℕ :=
  if req.mode ≠ 0 then cappedCount req.mode req.reg req.fcount req.fpos
  else cappedCount req.mode req.reg req.fcount req.fpos / 2

/-- The address on the bus at which a call starts. -/
def Request.busAddr (req : Request) : UInt32 :=
  getMappedLocation map req.reg.loc + UInt32.ofInt req.fpos

/-- What a read gets from the bus. -/
def Request.recvBytes (req : Request) (device : β) : List UInt8 × IoState β :=
  recvWords bus (req.recvSize / 2) (req.busAddr map) ⟨device, [.getTask, .getHwrops, .down]⟩

/-- A read gets its bytes into the buffer. -/
theorem reaches_recv (read : (requests i).direction = .read) (r : Shared β) :
    ∃ page : RhinoPage,
      loadAt page.data 0 (2 * ((requests i).recvSize / 2)) =
        ((requests i).recvBytes bus map r.device).1 ∧
      (ioregProgram bus map requests).Reaches i gaveUp (.initSize, r)
        (.received (((requests i).recvSize / 2 : ℕ) * 2),
          ⟨page, ((requests i).recvBytes bus map r.device).2.bus⟩) := by
  have loop := reaches_received bus map requests i gaveUp [.getTask, .getHwrops, .down] 0
    ((requests i).recvSize / 2) ((requests i).busAddr map)
    ⟨(requests i).reg.loc, UInt32.ofInt (requests i).fpos, (requests i).recvSize, r.page.data⟩
    r.device
  rw [Nat.zero_add] at loop
  have length : ((requests i).recvBytes bus map r.device).1.length =
      2 * ((requests i).recvSize / 2) := recvWords_length bus _ _ _
  refine ⟨⟨(requests i).reg.loc, UInt32.ofInt (requests i).fpos, (requests i).recvSize,
    storeAt r.page.data 0 ((requests i).recvBytes bus map r.device).1⟩, ?_, ?_⟩
  · rw [← length]
    exact loadAt_storeAt r.page.data 0 _
  · have first : (ioregProgram bus map requests).alone i gaveUp (.initSize, r) =
        some (.readLocation, { r with page.size := IOBUF_SIZE }) := by
      simp [Program.alone, ioregProgram, Request.next, read]
    apply Program.Reaches.head first
    apply Program.Reaches.head rfl
    apply Program.Reaches.head rfl
    apply Program.Reaches.head rfl
    exact Program.Reaches.head rfl loop

/-- A read from `get_iobuf` on, as a whole. -/
def Request.finishRead (req : Request) (device : β) : Call β :=
  readIobuf bus map req.reg req.mode (cappedCount req.mode req.reg req.fcount req.fpos) req.fpos
    ⟨device, []⟩

/-- The end of a read that hands out the given bytes. -/
def Request.handOut (req : Request) (data : List UInt8) : Ending :=
  ⟨data.length, req.advance data.length, data⟩

theorem finishRead_leftAt (req : Request) (device : β) :
    (req.finishRead bus map device).LeftAt
      (if req.mode = 0 then
        (toAscii (req.recvBytes bus map device).1 ((req.recvSize / 2 : ℕ) * 2)).elim
          (req.leave (-einval)) req.handOut
      else req.handOut (req.recvBytes bus map device).1)
      (req.recvBytes bus map device).2.bus := by
  have nonnegative : ¬ ((req.recvSize / 2 : ℕ) : ℤ) * 2 < 0 := by omega
  unfold Request.finishRead readIobuf
  change Call.LeftAt (if ((req.recvSize / 2 : ℕ) : ℤ) * 2 < 0 then _ else _) _ _
  rw [if_neg nonnegative]
  by_cases text : req.mode = 0
  · rw [if_pos text, if_pos text]
    split
    · next invalid =>
        have converted : toAscii (req.recvBytes bus map device).1
            ((req.recvSize / 2 : ℕ) * 2) = none := invalid
        rw [converted]
        exact ⟨rfl, rfl⟩
    · next data valid =>
        have converted : toAscii (req.recvBytes bus map device).1
            ((req.recvSize / 2 : ℕ) * 2) = some data := valid
        rw [converted]
        exact ⟨rfl, rfl⟩
  · rw [if_neg text, if_neg text]
    exact ⟨rfl, rfl⟩

/-- A read that has the buffer gets to `put_iobuf` with what it returns. -/
theorem reaches_putIobuf_of_read (read : (requests i).direction = .read) (r : Shared β) :
    ∃ page : RhinoPage, (ioregProgram bus map requests).Reaches i gaveUp (.initSize, r)
      (.putIobuf ((requests i).finishRead bus map r.device).ending,
        ⟨page, ((requests i).finishRead bus map r.device).io.bus⟩) := by
  obtain ⟨page, data, received⟩ := reaches_recv bus map requests i gaveUp read r
  obtain ⟨ending, device⟩ := finishRead_leftAt bus map (requests i) r.device
  have length : ((requests i).recvBytes bus map r.device).1.length =
      2 * ((requests i).recvSize / 2) := recvWords_length bus _ _ _
  rw [ending, device]
  generalize (requests i).recvSize / 2 = count at data received length ⊢
  have nonnegative : ¬ (count : ℤ) * 2 < 0 := by omega
  have toNat : ((count : ℤ) * 2).toNat = 2 * count := by omega
  by_cases text : (requests i).mode = 0
  · rw [if_pos text]
    cases converted : toAscii ((requests i).recvBytes bus map r.device).1
        (count * 2) with
    | none =>
        refine ⟨page, received.then ?_⟩
        simp [Program.alone, ioregProgram, Request.next, Request.convertPage, nonnegative, text,
          toNat, data, converted]
    | some ascii =>
        have converts : (ioregProgram bus map requests).alone i gaveUp
            (.received (count * 2),
              ⟨page, ((requests i).recvBytes bus map r.device).2.bus⟩) =
            some (.copyOut ascii.length, ⟨{ page with data := storeAt page.data 0 ascii },
              ((requests i).recvBytes bus map r.device).2.bus⟩) := by
          simp [Program.alone, ioregProgram, Request.next, Request.convertPage, nonnegative, text,
            toNat, data, converted]
        refine ⟨{ page with data := storeAt page.data 0 ascii },
          (received.then converts).then ?_⟩
        simp [Program.alone, ioregProgram, Request.next, Request.handOut, loadAt_storeAt]
  · rw [if_neg text]
    have copies : (ioregProgram bus map requests).alone i gaveUp
        (.received (count * 2), ⟨page, ((requests i).recvBytes bus map r.device).2.bus⟩) =
        some (.copyOut (2 * count), ⟨page, ((requests i).recvBytes bus map r.device).2.bus⟩) := by
      simp [Program.alone, ioregProgram, Request.next, nonnegative, text, toNat]
    refine ⟨page, (received.then copies).then ?_⟩
    simp [Program.alone, ioregProgram, Request.next, Request.handOut, data, length]

/-! ## The steps of a write -/

/-- The loop of `rhino_send_iobuf` from turn `j` on. -/
theorem reaches_sent (trace : List IoEvent) (j k size : ℕ) (fits : 2 * k ≤ size) (dst : UInt32)
    (page : RhinoPage) (device : β) :
    (ioregProgram bus map requests).Reaches i gaveUp
      (.sendWord j (j + k) dst, ⟨page, device⟩)
      (.sent ((j + k : ℕ) * 2),
        ⟨page, (sendWords bus k (loadAt page.data (2 * j) size) dst ⟨device, trace⟩).bus⟩) := by
  induction k generalizing trace j size dst device with
  | zero =>
      apply Program.Reaches.step
      simp [Program.alone, ioregProgram, Request.next, sendWords]
  | succ k ih =>
      obtain ⟨rest, rfl⟩ : ∃ rest, size = 2 + rest := ⟨size - 2, by omega⟩
      have word : u16At (loadAt page.data (2 * j) (2 + rest)) 0 =
          u16At (loadAt page.data (2 * j) 2) 0 := by
        rw [loadAt_add, u16At, slice_append_left (by simp), ← u16At]
      have behind : (loadAt page.data (2 * j) (2 + rest)).drop 2 =
          loadAt page.data (2 * (j + 1)) rest := by
        rw [loadAt_add, List.drop_append_of_le_length (by simp), List.drop_eq_nil_of_le (by simp),
          List.nil_append, Nat.mul_succ]
      have turn := ih (trace ++ [.writew (u16At (loadAt page.data (2 * j) 2) 0) dst]) (j + 1) rest
        (by omega) (dst + 2) (bus.writew (u16At (loadAt page.data (2 * j) 2) 0) dst device)
      rw [Nat.add_right_comm, Nat.add_assoc] at turn
      rw [sendWords, word, behind]
      apply Program.Reaches.head _ turn
      simp [Program.alone, ioregProgram, Request.next]

/-- A write that has filled the buffer sends it. -/
theorem reaches_putIobuf_of_filled (size : ℕ) (r : Shared β) :
    ∃ page : RhinoPage, (ioregProgram bus map requests).Reaches i gaveUp (.writeSize size, r)
      (.putIobuf (writeIobuf bus map (requests i).reg size (loadAt r.page.data 0 size)
          (requests i).fpos ⟨r.device, []⟩).ending,
        ⟨page, (writeIobuf bus map (requests i).reg size (loadAt r.page.data 0 size)
          (requests i).fpos ⟨r.device, []⟩).io.bus⟩) := by
  have loop := reaches_sent bus map requests i gaveUp [] 0 (size / 2) size
    (Nat.mul_div_le size 2) ((requests i).busAddr map)
    ⟨(requests i).reg.loc, UInt32.ofInt (requests i).fpos, size, r.page.data⟩ r.device
  rw [Nat.zero_add, Nat.mul_zero] at loop
  refine ⟨⟨(requests i).reg.loc, UInt32.ofInt (requests i).fpos, size, r.page.data⟩, ?_⟩
  apply Program.Reaches.head rfl
  apply Program.Reaches.head rfl
  apply Program.Reaches.head rfl
  apply Program.Reaches.head rfl
  apply loop.then
  unfold writeIobuf rhinoSendIobuf
  dsimp only
  split
  · next nothing =>
      change some (Stage.putIobuf (if _ ≤ 0 then _ else _), _) = _
      rw [if_pos nothing]
      rfl
  · next positive =>
      change some (Stage.putIobuf (if _ ≤ 0 then _ else _), _) = _
      rw [if_neg positive]
      rfl

theorem payload_length {req : Request} {size : ℕ} {data : List UInt8}
    (filled : req.payload = some (size, data)) : data.length = size := by
  unfold Request.payload at filled
  split at filled
  · split at filled
    · contradiction
    · obtain ⟨rfl, rfl⟩ := Prod.mk.inj (Option.some.inj filled)
      exact loadAt_length _ _ _
  · obtain ⟨rfl, rfl⟩ := Prod.mk.inj (Option.some.inj filled)
    exact u32Bytes_length _

/-- Only a fault makes a write leave with the buffer. -/
theorem fillPage_of_none {req : Request} (none : req.payload = none) {r : Shared β}
    (full : r.page.size = IOBUF_SIZE) : req.fillPage r = (.kept (req.leave (-einval)), r) := by
  have positive : ¬ IOBUF_SIZE = 0 := by decide
  unfold Request.payload at none
  split at none
  · next raw =>
      split at none
      · next fault =>
          unfold Request.fillPage
          rw [if_pos raw, full, if_neg positive, if_pos fault]
      · contradiction
  · contradiction

theorem fillPage_of_some {req : Request} (text : req.mode ≠ 1 → req.TextFits) {size : ℕ}
    {data : List UInt8} (filled : req.payload = some (size, data)) {r : Shared β}
    (full : r.page.size = IOBUF_SIZE) :
    req.fillPage r =
      (.writeSize size, { r with page.data := storeAt r.page.data 0 data }) := by
  have positive : ¬ IOBUF_SIZE = 0 := by decide
  unfold Request.payload at filled
  unfold Request.fillPage
  split at filled
  · next raw =>
      split at filled
      · contradiction
      · next fault =>
          obtain ⟨rfl, rfl⟩ := Prod.mk.inj (Option.some.inj filled)
          rw [if_pos raw, full, if_neg positive, if_neg fault]
          rfl
  · next ascii =>
      have room : ¬ IOBUF_SIZE < req.fcount := by
        have small := (text ascii).fcount
        simp only [NUMTMPBUF, IOBUF_SIZE, PAGE_SIZE] at small ⊢
        omega
      obtain ⟨rfl, rfl⟩ := Prod.mk.inj (Option.some.inj filled)
      rw [if_neg ascii, full, if_neg room]

/-- The end of a write that has the buffer: the stage it stops at, or the one at
which it gives the buffer back. -/
theorem reaches_of_write (write : (requests i).direction = .write)
    (text : (requests i).mode ≠ 1 → (requests i).TextFits) (r : Shared β) :
    ∃ page : RhinoPage, (ioregProgram bus map requests).Reaches i gaveUp (.initSize, r)
      (if (requests i).payload = none then
          .kept ((requests i).finishWrite bus map r.device).1
        else .putIobuf ((requests i).finishWrite bus map r.device).1,
        ⟨page, ((requests i).finishWrite bus map r.device).2⟩) := by
  have first : (ioregProgram bus map requests).alone i gaveUp (.initSize, r) =
      some (.fill, { r with page.size := IOBUF_SIZE }) := by
    simp [Program.alone, ioregProgram, Request.next, write]
  have fill : (ioregProgram bus map requests).alone i gaveUp
      (.fill, { r with page.size := IOBUF_SIZE }) =
        some ((requests i).fillPage { r with page.size := IOBUF_SIZE }) := rfl
  unfold Request.finishWrite
  cases filled : (requests i).payload with
  | none =>
      rw [fillPage_of_none filled rfl] at fill
      rw [if_pos rfl]
      exact ⟨_, (Program.Reaches.step first).then fill⟩
  | some payload =>
      obtain ⟨size, data⟩ := payload
      rw [fillPage_of_some text filled rfl] at fill
      rw [if_neg (Option.some_ne_none _)]
      obtain ⟨page, sent⟩ := reaches_putIobuf_of_filled bus map requests i gaveUp size
        ⟨{ r.page with size := IOBUF_SIZE, data := storeAt r.page.data 0 data }, r.device⟩
      have restored : loadAt (storeAt r.page.data 0 data) 0 size = data := by
        rw [← payload_length filled]
        exact loadAt_storeAt r.page.data 0 data
      dsimp only at sent
      rw [restored] at sent
      exact ⟨page, .head first (.head fill sent)⟩

/-! ## A call on its own -/

/-- The call leaves without giving the buffer back: it has the buffer, and its
data cannot be copied from the user. -/
def Request.Keeps (req : Request) : Prop :=
  req.direction = .write ∧ req.entry = .getIobuf ∧ req.payload = none

instance (req : Request) : Decidable req.Keeps :=
  inferInstanceAs (Decidable (_ ∧ _ ∧ _))

/-- The stage at which the call stops. -/
def Request.last (req : Request) (acquired : Bool) (ending : Ending) : Stage :=
  if acquired ∧ req.Keeps then .kept ending else .done ending

/-- The last stage of a call and what it leaves on the bus, by the call as a
whole. -/
def callOutcome (i : ι) (gaveUp : Bool) (device : β) : Stage × β :=
  let call := (requests i).perform bus map (!gaveUp) device
  ((requests i).last (!gaveUp) call.ending, call.io.bus)

/-- A call that returns before it asks for the buffer. -/
theorem reaches_of_done {ending : Ending} (entry : (requests i).entry = .done ending)
    (r : Shared β) (left : ((requests i).perform bus map (!gaveUp) r.device).LeftAt ending
      r.device) :
    (ioregProgram bus map requests).Reaches i gaveUp (.enter, r)
        ((callOutcome bus map requests i gaveUp r.device).1, r) ∧
      r.device = (callOutcome bus map requests i gaveUp r.device).2 := by
  have last : (requests i).last (!gaveUp) ending = .done ending := by
    rw [Request.last, if_neg]
    rintro ⟨-, -, other, -⟩
    rw [entry] at other
    contradiction
  refine ⟨?_, left.2.symm⟩
  rw [callOutcome, left.1, last]
  apply Program.Reaches.step
  simp [Program.alone, ioregProgram, Request.next, entry]

/-- A call that asks for the buffer in vain. -/
theorem reaches_of_refused (entry : (requests i).entry = .getIobuf) (r : Shared β)
    (left : ((requests i).perform bus map false r.device).LeftAt (requests i).refused
      r.device) :
    (ioregProgram bus map requests).Reaches i true (.enter, r)
        ((callOutcome bus map requests i true r.device).1, r) ∧
      r.device = (callOutcome bus map requests i true r.device).2 := by
  have first : (ioregProgram bus map requests).alone i true (.enter, r) = some (.getIobuf, r) := by
    simp [Program.alone, ioregProgram, Request.next, entry]
  refine ⟨?_, left.2.symm⟩
  rw [callOutcome, Bool.not_true, left.1]
  exact .head first (.step rfl)

/-- A call that gets the buffer, from where it has it. -/
theorem reaches_of_acquired (entry : (requests i).entry = .getIobuf) (r next : Shared β)
    (reaches : (ioregProgram bus map requests).Reaches i false (.initSize, r)
      (if (requests i).Keeps then
          .kept ((requests i).perform bus map true r.device).ending
        else .putIobuf ((requests i).perform bus map true r.device).ending, next)) :
    (ioregProgram bus map requests).Reaches i false (.enter, r)
      ((callOutcome bus map requests i false r.device).1, next) := by
  have first : (ioregProgram bus map requests).alone i false (.enter, r) = some (.getIobuf, r) := by
    simp [Program.alone, ioregProgram, Request.next, entry]
  rw [callOutcome, Bool.not_false, Request.last]
  by_cases keeps : (requests i).Keeps
  · rw [if_pos keeps] at reaches
    rw [if_pos ⟨rfl, keeps⟩]
    exact .head first (.head rfl reaches)
  · rw [if_neg keeps] at reaches
    rw [if_neg fun both => keeps both.2]
    exact .head first (.head rfl (reaches.then rfl))

theorem reaches_of_direction_read (read : (requests i).direction = .read) (r : Shared β) :
    ∃ next, (ioregProgram bus map requests).Reaches i gaveUp (.enter, r)
        ((callOutcome bus map requests i gaveUp r.device).1, next) ∧
      next.device = (callOutcome bus map requests i gaveUp r.device).2 := by
  have entry_eq : (requests i).entry = (requests i).readEntry := by
    rw [Request.entry, read]
  have perform_eq : (requests i).perform bus map (!gaveUp) r.device =
      ioregRegRead bus map (requests i).reg (requests i).mode
        { (requests i).env with iobuf := !gaveUp } (requests i).own (requests i).fcount
        (requests i).fpos ⟨r.device, []⟩ := by
    rw [Request.perform, read]
  rcases readEntry_spec bus map (requests i) (!gaveUp) r.device with
    ⟨ending, entry, left⟩ | ⟨entry, refused, finish⟩
  · rw [← perform_eq] at left
    exact ⟨r, reaches_of_done bus map requests i gaveUp (entry_eq.trans entry) r left⟩
  · rw [← perform_eq] at refused finish
    cases gaveUp with
    | true =>
        have left := refused rfl
        have refused_eq : (requests i).refused = (requests i).leave 0 := by
          rw [Request.refused, read]
        rw [← refused_eq] at left
        exact ⟨r, reaches_of_refused bus map requests i (entry_eq.trans entry) r left⟩
    | false =>
        have whole : (requests i).perform bus map true r.device =
            (requests i).finishRead bus map r.device := finish rfl
        have gives : ¬ (requests i).Keeps := by
          rintro ⟨write, -⟩
          rw [read] at write
          contradiction
        obtain ⟨page, reaches⟩ := reaches_putIobuf_of_read bus map requests i false read r
        refine ⟨⟨page, ((requests i).finishRead bus map r.device).io.bus⟩, ?_, ?_⟩
        · apply reaches_of_acquired bus map requests i (entry_eq.trans entry)
          rw [if_neg gives, whole]
          exact reaches
        · rw [callOutcome, Bool.not_false, whole]

theorem reaches_of_direction_write (write : (requests i).direction = .write) (r : Shared β) :
    ∃ next, (ioregProgram bus map requests).Reaches i gaveUp (.enter, r)
        ((callOutcome bus map requests i gaveUp r.device).1, next) ∧
      next.device = (callOutcome bus map requests i gaveUp r.device).2 := by
  have entry_eq : (requests i).entry = (requests i).writeEntry := by
    rw [Request.entry, write]
  have perform_eq : (requests i).perform bus map (!gaveUp) r.device =
      ioregRegWrite bus map (requests i).reg (requests i).mode
        { (requests i).env with iobuf := !gaveUp } (requests i).own (requests i).fcount
        (requests i).fpos ⟨r.device, []⟩ := by
    rw [Request.perform, write]
  rcases writeEntry_spec bus map (requests i) (!gaveUp) r.device with
    ⟨ending, entry, left⟩ | ⟨entry, text, refused, finish⟩
  · rw [← perform_eq] at left
    exact ⟨r, reaches_of_done bus map requests i gaveUp (entry_eq.trans entry) r left⟩
  · rw [← perform_eq] at refused finish
    cases gaveUp with
    | true =>
        have left := refused rfl
        have refused_eq : (requests i).refused = (requests i).leave (-einval) := by
          rw [Request.refused, write]
        rw [← refused_eq] at left
        exact ⟨r, reaches_of_refused bus map requests i (entry_eq.trans entry) r left⟩
    | false =>
        obtain ⟨ending, device⟩ : ((requests i).perform bus map true r.device).LeftAt
            ((requests i).finishWrite bus map r.device).1
            ((requests i).finishWrite bus map r.device).2 := finish rfl
        have keeps_iff : (requests i).Keeps ↔ (requests i).payload = none := by
          constructor
          · rintro ⟨-, -, none⟩
            exact none
          · intro none
            exact ⟨write, entry_eq.trans entry, none⟩
        obtain ⟨page, reaches⟩ := reaches_of_write bus map requests i false write text r
        refine ⟨⟨page, ((requests i).finishWrite bus map r.device).2⟩, ?_, ?_⟩
        · apply reaches_of_acquired bus map requests i (entry_eq.trans entry)
          rw [ending]
          simp only [keeps_iff]
          exact reaches
        · rw [callOutcome, Bool.not_false, device]

/-- On its own, every call comes to its end as the functions for whole calls
say, whatever the buffer holds. -/
theorem ioregProgram_completes : (ioregProgram bus map requests).Completes Shared.device
    (callOutcome bus map requests) where
  reaches i gaveUp r := by
    cases direction : (requests i).direction with
    | read => exact reaches_of_direction_read bus map requests i gaveUp direction r
    | write => exact reaches_of_direction_write bus map requests i gaveUp direction r
  stops i gaveUp device := by
    rw [callOutcome, Request.last]
    split
    · rfl
    · rfl

/-- The device after the given calls, made one at a time. -/
def serialDevice (order : List ι) (device : β) : β :=
  order.foldl (fun device i => ((requests i).perform bus map true device).io.bus) device

theorem ended_last (req : Request) (acquired : Bool) (ending : Ending) :
    (req.last acquired ending).ended = some ending := by
  unfold Request.last
  split
  · rfl
  · rfl

end Alone

/-- Any number of calls, interleaved in any way: each acquires the semaphore at
most once; a call that has acquired it and has returned has returned what the
calls would have one at a time, in the order in which they acquired it; a call
that has returned without it has done nothing that depends on the others or that
they could see; and once all calls that have acquired it have returned, the
device is as these calls leave it one at a time. -/
theorem ioreg_calls_serial {β : Type} (bus : Bus β) (map : FpgaMap) {ι : Type} [DecidableEq ι]
    (requests : ι → Request) (page : RhinoPage) (device : β) (labels : List (ι × Bool))
    (s : Program.State ι Stage (Shared β))
    (ran : run (ioregProgram bus map requests).step
      ((ioregProgram bus map requests).start ⟨page, device⟩) labels = some s) :
    s.order.Nodup ∧
      (∀ i ending, (s.threads i).ended = some ending →
        (∀ earlier later, s.order = earlier ++ i :: later →
          ((requests i).perform bus map true
            (serialDevice bus map requests earlier device)).ending = ending) ∧
        (i ∉ s.order → ∀ any, ((requests i).perform bus map false any).LeftAt ending any)) ∧
      ((∀ i ∈ s.order, ∃ ending, (s.threads i).ended = some ending) →
        s.res.device = serialDevice bus map requests s.order device) := by
  have inv := Program.inv_of_run ran
  have completes := ioregProgram_completes bus map requests
  refine ⟨inv.nodup, ?_, ?_⟩
  · intro i ending ended
    have stopped : (ioregProgram bus map requests).next i (s.threads i) = .stop :=
      next_of_ended bus map ended
    constructor
    · intro earlier later order
      have result := inv.result completes order stopped
      rw [result, callOutcome, ended_last] at ended
      exact Option.some.inj ended
    · intro out any
      obtain ⟨result, same⟩ := inv.result_of_notMem completes out stopped ⟨page, any⟩
      rw [result, callOutcome, ended_last] at ended
      exact ⟨Option.some.inj ended, same⟩
  · intro ended
    apply inv.final completes
    intro i mem
    obtain ⟨ending, stops⟩ := ended i mem
    exact next_of_ended bus map stops

/-- A device that is a single register. -/
def registerBus : Bus UInt16 where
  readw _ value := (value, value)
  writew value _ _ := value

/-- A write of `11` and a read of the register that it goes to. -/
def writeAndRead : Bool → Request
  | false => ⟨.write, regLed, 1, writesOne, false, 2, 0⟩
  | true => ⟨.read, regLed, 1, writesOne, false, 2, 0⟩

/-- Both calls enter, the write acquires the semaphore, and the read waits until
it has been released. -/
def writeThenRead : List (Bool × Bool) :=
  [(true, false), (false, false)] ++ List.replicate 11 (false, false) ++
    List.replicate 11 (true, false)

theorem ioreg_calls_serial_writeThenRead :
    ∃ s, run (ioregProgram registerBus sampleMap writeAndRead).step
        ((ioregProgram registerBus sampleMap writeAndRead).start ⟨⟨0, 0, 0, fun _ => 0⟩, 0⟩)
        writeThenRead = some s ∧
      s.order = [false, true] ∧ s.threads true = .done ⟨2, 2, [49, 49]⟩ ∧
      ((writeAndRead true).perform registerBus sampleMap true
        (serialDevice registerBus sampleMap writeAndRead [false] 0)).ending = ⟨2, 2, [49, 49]⟩ := by
  obtain ⟨s, ran, order, ended⟩ : ∃ s, run (ioregProgram registerBus sampleMap writeAndRead).step
        ((ioregProgram registerBus sampleMap writeAndRead).start ⟨⟨0, 0, 0, fun _ => 0⟩, 0⟩)
        writeThenRead = some s ∧ s.order = [false, true] ∧
      s.threads true = .done ⟨2, 2, [49, 49]⟩ := ⟨_, rfl, rfl, rfl⟩
  have serial := (ioreg_calls_serial registerBus sampleMap writeAndRead _ _ _ s ran).2.1 true
    ⟨2, 2, [49, 49]⟩ (by rw [ended]; rfl)
  exact ⟨s, ran, order, ended, serial.1 [false] [] order⟩

end Rhino.Ioreg
