import Rhino.Hwr.Configure.Chunks
import Mathlib.Data.List.Induction

/-!
# A configuration in which nothing goes wrong

Every read delivers what it is asked for, every SPI message succeeds, INIT_B and
DONE are high when they are looked at, and nobody has signalled the completion
before.  Whatever the schedule, such a call returns zero or has not returned
yet, and once it has returned the FPGA has received the payload.

Whether it returns depends on the payload alone.
-/

namespace Rhino.Hwr.Configure

open Rhino.Bof Rhino.Bytes Rhino.Kernel

/-- Nothing goes wrong. -/
structure Job.Calm (job : Job) : Prop where
  full : job.ReadsInFull
  succeeds : job.Succeeds
  crcInitB : job.env.crcInitB = true
  done : job.env.done 0 = true
  fresh : job.env.staleDone = 0

variable {job : Job} {t : Transfer}

/-- Without a failure, only whole pages keep the final part from signalling. -/
theorem Job.Succeeds.ends_iff (succeeds : job.Succeeds) :
    job.Ends ↔ job.len.toNat % PAGE_SIZE ≠ 0 := by
  constructor
  · rintro (short | ⟨nonempty, failed⟩)
    · exact short
    · have positive : job.len.toNat ≠ 0 := by
        intro zero
        exact nonempty (UInt32.toNat_inj.mp zero)
      have final : job.count - 1 + 1 = job.count ∧ job.count - 1 < job.count := by
        unfold Job.count PAGE_SIZE
        omega
      rw [← final.1] at failed
      exact absurd (succeeds _ final.2) failed
  · exact Or.inl

/-- Everything that has completed has reached the FPGA. -/
theorem Job.Smooth.received_eq (smooth : job.Smooth t) (succeeds : job.Succeeds) :
    t.received = ((t.completed.map Prod.fst).map Part.data).flatten := by
  have all : t.completed.filter (fun entry => entry.2 = 0) = t.completed := by
    rw [List.filter_eq_self]
    intro entry member
    obtain ⟨k, lt, same⟩ := smooth.exists_part member
    rw [smooth.status entry member, same]
    exact decide_eq_true (succeeds k (lt.trans_le smooth.number))
  rw [Transfer.received, all, List.map_map]
  rfl

namespace Job.Calm

/-- Behind its wait, the call has delivered the payload. -/
theorem received (calm : job.Calm) (smooth : job.Smooth t)
    (low : job.offset.toNat + job.len.toNat ≤ 2 ^ 32) (waited : t.pc.waited = 1) :
    t.received = slice job.offset.toNat job.len.toNat job.file := by
  obtain ⟨-, settled, -⟩ :=
    smooth.ended_of_waited calm.full calm.succeeds.early calm.fresh waited
  have moved : t.pc ≠ .sending := by
    intro sending
    rw [sending] at waited
    contradiction
  have handed := smooth.handed_of_left moved
  rw [Transfer.handed, settled, List.append_nil] at handed
  rw [smooth.received_eq calm.succeeds, handed, calm.full.flatten_parts low le_rfl,
    Job.sent_count]

/-- A call that is about to return returns zero. -/
theorem zero_of_sender (calm : job.Calm) (smooth : job.Smooth t)
    (zero : ∀ retval, t.pc = .returned retval → retval = 0) {retval : ℤ}
    (returned : (senderMove job.file job.env t).pc = .returned retval) : retval = 0 := by
  unfold senderMove at returned
  cases pc : t.pc with
  | sending =>
      rw [pc] at returned
      dsimp only at returned
      rcases smooth.number.lt_or_eq with more | all
      · -- The loop is left neither by a failed read nor by a failed message.
        rw [smooth.sendPart_eq calm.full calm.succeeds.early more] at returned
        exact absurd (pc.symm.trans returned) (by simp)
      · rw [sendPart, if_pos ((smooth.len_eq_zero_iff calm.full).mpr all)] at returned
        contradiction
  | waiting =>
      rw [pc] at returned
      dsimp only at returned
      unfold waitForCompletion at returned
      split at returned
      · exact absurd (pc.symm.trans returned) (by simp)
      · contradiction
  | crcCheck =>
      rw [pc] at returned
      dsimp only at returned
      rw [crcCheck, if_pos calm.crcInitB] at returned
      contradiction
  | startup =>
      rw [pc] at returned
      dsimp only at returned
      rw [startup, pollDone, if_pos calm.done, if_pos rfl] at returned
      exact (Pc.returned.inj returned).symm
  | returned value =>
      rw [pc] at returned
      dsimp only at returned
      rw [pc] at returned
      exact zero retval (pc.trans returned)

theorem zero_of_callback (zero : ∀ retval, t.pc = .returned retval → retval = 0) {retval : ℤ}
    (returned : (spiTransferCompleted job.env t).pc = .returned retval) : retval = 0 := by
  apply zero
  rw [← returned]
  unfold spiTransferCompleted
  cases t.inflight <;> rfl

/-- Whatever the schedule, the call returns nothing but zero. -/
theorem zero_of_returned (calm : job.Calm) (schedule : List Move) {retval : ℤ}
    (returned : (schedule.foldl job.move
      (Transfer.start job.env job.offset job.len)).pc = .returned retval) : retval = 0 := by
  induction schedule using List.reverseRecOn generalizing retval with
  | nil => contradiction
  | append_singleton schedule who ih =>
      have smooth := smooth_start.run calm.full calm.succeeds.early schedule
      rw [List.foldl_append, List.foldl_cons, List.foldl_nil] at returned
      cases who with
      | sender => exact calm.zero_of_sender smooth (fun _ => ih) returned
      | callback => exact zero_of_callback (fun _ => ih) returned

end Job.Calm

/-! ## The whole call -/

section Call

variable {addr : HwrAddr} {file : File} {offset len : UInt32} {env : ConfigEnv}

/-- If the call returns, it returns zero, and the FPGA has the payload. -/
theorem rhinoConfigure_calm (calm : Job.Calm ⟨file, env, offset, len⟩)
    (begins : started addr env = true) (low : offset.toNat + len.toNat ≤ 2 ^ 32)
    {schedule : List Move} {retval : ℤ}
    (returned : (rhinoConfigure addr file offset len env schedule).1 = some retval) :
    retval = 0 ∧ (rhinoConfigure addr file offset len env schedule).2.received =
      slice offset.toNat len.toNat file := by
  rw [result_rhinoConfigure_started begins, Pc.result_eq_some_iff] at returned
  refine ⟨calm.zero_of_returned schedule returned, ?_⟩
  have smooth := smooth_start.run calm.full calm.succeeds.early schedule
  rw [rhinoConfigure_started begins]
  apply calm.received smooth low
  rw [returned]
  rfl

/-- A payload that ends inside a page: from wherever the call has got to, it can
come to its end. -/
theorem rhinoConfigure_calm_returns (calm : Job.Calm ⟨file, env, offset, len⟩)
    (begins : started addr env = true) (short : len.toNat % PAGE_SIZE ≠ 0)
    (schedule : List Move) :
    ∃ more, (rhinoConfigure addr file offset len env (schedule ++ more)).1 = some 0 := by
  have smooth := smooth_start.run calm.full calm.succeeds.early schedule
  obtain ⟨more, retval, returned⟩ := smooth.exists_returned calm.full calm.succeeds.early
    (calm.succeeds.ends_iff.mpr short)
  rw [← List.foldl_append] at returned
  rcases calm.zero_of_returned (schedule ++ more) returned with rfl
  refine ⟨more, ?_⟩
  rw [result_rhinoConfigure_started begins, Pc.result_eq_some_iff]
  exact returned

/-- A payload of whole pages: the call never returns. -/
theorem rhinoConfigure_calm_blocks (calm : Job.Calm ⟨file, env, offset, len⟩)
    (begins : started addr env = true) (pages : len.toNat % PAGE_SIZE = 0)
    (schedule : List Move) : (rhinoConfigure addr file offset len env schedule).1 = none := by
  rw [result_rhinoConfigure_started begins]
  apply blocks_of_not_ends calm.full calm.succeeds.early _ calm.fresh
  rw [calm.succeeds.ends_iff]
  exact not_not.mpr pages

end Call

end Rhino.Hwr.Configure
