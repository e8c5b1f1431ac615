import Rhino.Ioreg.Confinement

/-!
# Events that come in pairs

A register file operation takes a reference to the task, counts a use of the hwrtype
and acquires the buffer, and undoes each of these on its way out.  The events are
weighed so that those of a pair cancel; what is proved for any such weights holds for
each of the three.
-/

namespace Rhino.Ioreg

open Rhino.Bof Rhino.Bytes Rhino.Kernel Rhino.Loader

/-- The weight of the events so far. -/
def IoState.weight {β : Type} (s : IoState β) (weigh : IoEvent → ℤ) : ℤ :=
  (s.trace.map weigh).sum

/-- Each event of a pair outweighs the other, and bus accesses weigh nothing. -/
structure Paired (weigh : IoEvent → ℤ) : Prop where
  task : weigh .getTask + weigh .putTask = 0
  hwrops : weigh .getHwrops + weigh .putHwrops = 0
  buffer : weigh .down + weigh .up = 0
  readw : ∀ addr, weigh (.readw addr) = 0
  writew : ∀ value addr, weigh (.writew value addr) = 0

/-- The call gets as far as copying raw data from the user into the buffer, and
the copy faults. -/
structure FaultsInBuffer (reg : Ioreg) (mode : ℤ) (env : IoEnv) (own : Bool) (fpos : ℤ) :
    Prop where
  position : ¬ (reg.mode &&& IORM_PIPE ≠ 0 ∧ own = false)
  below : fpos < reg.len.toNat
  task : env.task = true
  info : env.info = true
  hwrops : env.hwrops = .complete
  raw : mode = 1
  fault : env.fault = true

/-- Copying from the user faults in the buffer, or it fails without the buffer, or the
buffer has the data. -/
theorem copied_cases (reg : Ioreg) (mode : ℤ) (env : IoEnv) (fcount : ℕ) (fpos : ℤ) :
    let copied := if mode = 1 then ioregRegCpUdataRaw reg env fcount fpos
      else ioregRegCpUdataAscii env fcount fpos
    (mode = 1 ∧ env.fault = true ∧ env.iobuf = true) ∧ copied = (none, [.down]) ∨
      ¬ (mode = 1 ∧ env.fault = true ∧ env.iobuf = true) ∧
        (copied = (none, []) ∨ ∃ iobuf, copied = (some iobuf, [.down])) := by
  dsimp only
  by_cases raw : mode = 1
  · rw [if_pos raw, ioregRegCpUdataRaw]
    cases iobuf : env.iobuf with
    | false => exact Or.inr ⟨by simp, Or.inl rfl⟩
    | true =>
        cases fault : env.fault with
        | false => exact Or.inr ⟨by simp, Or.inr ⟨_, rfl⟩⟩
        | true => exact Or.inl ⟨⟨raw, rfl, rfl⟩, rfl⟩
  · rw [if_neg raw, ioregRegCpUdataAscii_eq]
    refine Or.inr ⟨fun lost => raw lost.1, ?_⟩
    by_cases accepted : TextAccepted env fcount fpos ∧ env.iobuf = true
    · rw [if_pos accepted]
      exact Or.inr ⟨_, rfl⟩
    · rw [if_neg accepted]
      exact Or.inl rfl

section Calls

variable {β : Type} (bus : Bus β) (map : FpgaMap) {weigh : IoEvent → ℤ}

theorem weight_log (s : IoState β) (events : List IoEvent) :
    (s.log events).weight weigh = s.weight weigh + (events.map weigh).sum := by
  rw [IoState.weight, IoState.log, List.map_append, List.sum_append, IoState.weight]

theorem leave_weight (s : IoState β) (fpos retval : ℤ) (events : List IoEvent) :
    (Call.leave s fpos events retval).io.weight weigh =
      s.weight weigh + (events.map weigh).sum :=
  weight_log s events

theorem leave_weight_of_zero (s : IoState β) (fpos retval : ℤ) {events : List IoEvent}
    (zero : (events.map weigh).sum = 0) :
    (Call.leave s fpos events retval).io.weight weigh = s.weight weigh := by
  rw [leave_weight, zero, add_zero]

namespace Paired

variable (paired : Paired weigh)

include paired

theorem task_sum : ([IoEvent.getTask, .putTask].map weigh).sum = 0 := by
  simp [paired.task]

theorem hwrops_sum :
    ([IoEvent.getTask, .getHwrops, .putHwrops, .putTask].map weigh).sum = 0 := by
  have task := paired.task
  have hwrops := paired.hwrops
  simp only [List.map_cons, List.map_nil, List.sum_cons, List.sum_nil]
  omega

theorem recvWords (count : ℕ) (src : UInt32) (s : IoState β) :
    (recvWords bus count src s).2.weight weigh = s.weight weigh := by
  induction count generalizing src s with
  | zero => rfl
  | succ count ih =>
      rw [Ioreg.recvWords]
      dsimp only
      rw [ih]
      simp [IoState.weight, paired.readw]

theorem sendWords (count : ℕ) (data : List UInt8) (dst : UInt32) (s : IoState β) :
    (sendWords bus count data dst s).weight weigh = s.weight weigh := by
  induction count generalizing data dst s with
  | zero => rfl
  | succ count ih =>
      rw [Ioreg.sendWords, ih]
      simp [IoState.weight, paired.writew]

/-- A read that has the buffer undoes everything on every way out. -/
theorem readIobuf (reg : Ioreg) (mode : ℤ) (fcount : ℕ) (fpos : ℤ) (s : IoState β) :
    (readIobuf bus map reg mode fcount fpos s).io.weight weigh = s.weight weigh := by
  have received : (rhinoRecvIobuf bus map
      ⟨reg.loc, UInt32.ofInt fpos, if mode ≠ 0 then fcount else fcount / 2, []⟩
      (s.log [.getTask, .getHwrops, .down])).2.2.weight weigh =
        s.weight weigh + ([IoEvent.getTask, .getHwrops, .down].map weigh).sum :=
    (paired.recvWords bus _ _ _).trans (weight_log s _)
  rw [Ioreg.readIobuf]
  generalize rhinoRecvIobuf bus map
      ⟨reg.loc, UInt32.ofInt fpos, if mode ≠ 0 then fcount else fcount / 2, []⟩
      (s.log [.getTask, .getHwrops, .down]) = result at received ⊢
  obtain ⟨retval, data, after⟩ := result
  dsimp only at received ⊢
  have undone : after.weight weigh + ([IoEvent.up, .putHwrops, .putTask].map weigh).sum =
      s.weight weigh := by
    have task := paired.task
    have hwrops := paired.hwrops
    have buffer := paired.buffer
    simp only [List.map_cons, List.map_nil, List.sum_cons, List.sum_nil] at received ⊢
    omega
  by_cases failed : retval < 0
  · rw [if_pos failed, leave_weight, undone]
  · rw [if_neg failed]
    cases (if mode = 0 then toAscii data retval else some data) with
    | none => exact (leave_weight _ _ _ _).trans undone
    | some text => exact (weight_log _ _).trans undone

theorem ioregRegRead (reg : Ioreg) (mode : ℤ) (env : IoEnv) (own : Bool) (fcount : ℕ)
    (fpos : ℤ) (s : IoState β) :
    (ioregRegRead bus map reg mode env own fcount fpos s).io.weight weigh = s.weight weigh := by
  have taskOnly := leave_weight_of_zero s fpos 0 paired.task_sum
  have hwropsToo := leave_weight_of_zero s fpos 0 paired.hwrops_sum
  unfold Ioreg.ioregRegRead
  split
  · exact leave_weight_of_zero s fpos _ rfl
  · split
    · exact leave_weight_of_zero s fpos _ rfl
    · split
      · exact taskOnly
      · split
        · exact taskOnly
        · split
          · exact taskOnly
          · exact hwropsToo
          · split
            · exact hwropsToo
            · exact paired.readIobuf bus map reg mode _ fpos s

/-- A write that has filled the buffer gives it back on every way out. -/
theorem writeIobuf (reg : Ioreg) (size : ℕ) (data : List UInt8) (fpos : ℤ) (s : IoState β) :
    (writeIobuf bus map reg size data fpos s).io.weight weigh =
      s.weight weigh + ([IoEvent.up, .putHwrops, .putTask].map weigh).sum := by
  have sent : (rhinoSendIobuf bus map ⟨reg.loc, UInt32.ofInt fpos, size, data⟩ s).2.weight weigh =
      s.weight weigh := paired.sendWords bus _ _ _ s
  rw [Ioreg.writeIobuf, ← sent]
  generalize rhinoSendIobuf bus map ⟨reg.loc, UInt32.ofInt fpos, size, data⟩ s = result
  obtain ⟨retval, after⟩ := result
  dsimp only
  by_cases failed : retval ≤ 0
  · rw [if_pos failed]
    exact leave_weight _ _ _ _
  · rw [if_neg failed]
    exact weight_log _ _

/-- A write undoes everything but the acquisition of the buffer in which it faults. -/
theorem ioregRegWrite (reg : Ioreg) (mode : ℤ) (env : IoEnv) (own : Bool) (fcount : ℕ)
    (fpos : ℤ) (s : IoState β) :
    (FaultsInBuffer reg mode env own fpos ∧ env.iobuf = true) ∧
        (ioregRegWrite bus map reg mode env own fcount fpos s).io.weight weigh =
          s.weight weigh + weigh .down ∨
      ¬ (FaultsInBuffer reg mode env own fpos ∧ env.iobuf = true) ∧
        (ioregRegWrite bus map reg mode env own fcount fpos s).io.weight weigh =
          s.weight weigh := by
  have taskOnly := leave_weight_of_zero s fpos (-einval) paired.task_sum
  have hwropsToo := leave_weight_of_zero s fpos (-einval) paired.hwrops_sum
  have task := paired.task
  have hwrops := paired.hwrops
  have buffer := paired.buffer
  unfold Ioreg.ioregRegWrite
  split
  next pipe =>
    exact Or.inr ⟨fun lost => lost.1.position pipe, leave_weight_of_zero s fpos _ rfl⟩
  next position =>
    split
    next past =>
      exact Or.inr ⟨fun lost => not_lt.mpr past lost.1.below, leave_weight_of_zero s fpos _ rfl⟩
    next below =>
      cases present : env.task with
      | false =>
          exact Or.inr ⟨fun lost => Bool.false_ne_true (present.symm.trans lost.1.task),
            leave_weight_of_zero s fpos _ rfl⟩
      | true =>
          cases info : env.info with
          | false =>
              exact Or.inr ⟨fun lost => Bool.false_ne_true (info.symm.trans lost.1.info), taskOnly⟩
          | true =>
              cases found : env.hwrops with
              | absent =>
                  refine Or.inr ⟨fun lost => ?_, taskOnly⟩
                  cases found.symm.trans lost.1.hwrops
              | incomplete =>
                  refine Or.inr ⟨fun lost => ?_, hwropsToo⟩
                  cases found.symm.trans lost.1.hwrops
              | complete =>
                  simp only [reduceCtorEq, if_false]
                  rcases copied_cases reg mode env fcount fpos with
                    ⟨⟨raw, fault, iobuf⟩, copied⟩ | ⟨safe, copied | ⟨iobuf, copied⟩⟩
                  · -- The caller drops its other references, but not the buffer.
                    refine Or.inl ⟨⟨⟨position, not_le.mp below, present, info, found, raw, fault⟩,
                      iobuf⟩, ?_⟩
                    rw [copied]
                    dsimp only
                    rw [leave_weight, weight_log]
                    simp only [List.cons_append, List.nil_append, List.map_cons, List.map_nil,
                      List.sum_cons, List.sum_nil]
                    omega
                  · refine Or.inr ⟨fun lost => safe ⟨lost.1.raw, lost.1.fault, lost.2⟩, ?_⟩
                    rw [copied]
                    dsimp only
                    rw [leave_weight, weight_log]
                    simp only [List.append_nil, List.map_cons, List.map_nil, List.sum_cons,
                      List.sum_nil]
                    omega
                  · refine Or.inr ⟨fun lost => safe ⟨lost.1.raw, lost.1.fault, lost.2⟩, ?_⟩
                    rw [copied]
                    dsimp only
                    rw [paired.writeIobuf, weight_log]
                    simp only [List.cons_append, List.nil_append, List.map_cons, List.map_nil,
                      List.sum_cons, List.sum_nil]
                    omega

end Paired

end Calls

end Rhino.Ioreg
