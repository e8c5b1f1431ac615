import Rhino.Hwr.Configure.Core
import Rhino.Transition.Run

/-!
# When the result of a configuration can be trusted

The caller takes every non-negative result of `rhino_configure` for success.
`retval` is also the variable that holds the byte count of the last
`kernel_read`, and every exit after the first read except the one for a failed
read returns it as it is.  So a failure that shows only after the first page
has been read is reported as success, unless the very next `kernel_read` fails.

`FailuresReported` says, from the file, the pins, the read outcomes and the
completion statuses, that no such failure can arise.  This is exactly when every
schedule of the call's own callbacks gives a result that can be trusted.
-/

namespace Rhino.Hwr.Configure

open Rhino.Bof Rhino.Bytes Rhino.Kernel

/-! ## The parts of a payload -/

/-- The arguments of a call and what it meets. -/
structure Job where
  file : File
  env : ConfigEnv
  offset : UInt32
  len : UInt32

namespace Job

variable (job : Job)

/-- Offset and remaining length once `k` parts have been read. -/
def cursor : ℕ → UInt32 × UInt32
  | 0 => (job.offset, job.len)
  | k + 1 =>
      let (offset, len) := cursor k
      let count := UInt32.ofNat (readPart job.file job.env (k + 1) offset len).2.length
      (offset + count, len - count)

/-- The read of the part with index `k`, which has number `k + 1`. -/
def partRead (k : ℕ) : ℤ × List UInt8 :=
  readPart job.file job.env (k + 1) (job.cursor k).1 (job.cursor k).2

/-- The part with index `k`. -/
def part (k : ℕ) : Part :=
  ⟨k + 1, (job.partRead k).2, (job.partRead k).2.length < PAGE_SIZE⟩

/-- The loop submits at least `k` parts unless a callback stops it. -/
def Submits (k : ℕ) : Prop :=
  ∀ i < k, (job.cursor i).2 ≠ 0 ∧ 0 ≤ (job.partRead i).1

/-- The value of `retval` after `k` parts. -/
def lastRead : ℕ → ℤ
  | 0 => -eio
  | k + 1 => (job.partRead k).1

/-- No failure can arise that `retval` does not report: a part completes with
a status other than 0 only if the read right after it fails, and if all parts
are sent then the completion was unsignalled on entry, only the final part is
short, and if it is short then both pins are high. -/
structure FailuresReported : Prop where
  status : ∀ k, job.Submits (k + 1) →
    ((job.cursor (k + 1)).2 ≠ 0 → 0 ≤ (job.partRead (k + 1)).1) →
      job.env.status (k + 1) = 0
  finish : ∀ n, job.Submits (n + 1) → (job.cursor (n + 1)).2 = 0 →
    job.env.staleDone = 0 ∧ (∀ k < n, (job.part k).last = false) ∧
      ((job.part n).last = true → job.env.crcInitB = true ∧ job.env.done 0 = true)

/-- The sender and the callbacks of this call. -/
def move (t : Transfer) (who : Move) : Transfer :=
  Configure.move job.file job.env t who

variable {job}

theorem Submits.mono {k n : ℕ} (submits : job.Submits n) (le : k ≤ n) : job.Submits k :=
  fun i lt => submits i (lt.trans_le le)

theorem Submits.succ {k : ℕ} (submits : job.Submits k) (more : (job.cursor k).2 ≠ 0)
    (read : 0 ≤ (job.partRead k).1) : job.Submits (k + 1) := by
  intro i lt
  rcases Nat.lt_succ_iff_lt_or_eq.mp lt with before | rfl
  · exact submits i before
  · exact ⟨more, read⟩

/-- A turn of the loop at the cursor of a number of parts, with its read
resolved. -/
theorem sendPart_eq {t : Transfer} (more : t.len ≠ 0)
    (placed : (t.offset, t.len) = job.cursor t.number) :
    sendPart job.file job.env t =
      if (job.partRead t.number).1 < 0 then
        { t with
          pc := .returned (job.partRead t.number).1
          retval := (job.partRead t.number).1
          number := t.number + 1 }
      else if t.parts + 1 = 0 then
        { t with
          pc := .returned (job.partRead t.number).1
          retval := (job.partRead t.number).1
          number := t.number + 1
          len := (job.cursor (t.number + 1)).2
          offset := (job.cursor (t.number + 1)).1
          parts := t.parts + 1 }
      else
        { t with
          retval := (job.partRead t.number).1
          number := t.number + 1
          len := (job.cursor (t.number + 1)).2
          offset := (job.cursor (t.number + 1)).1
          parts := t.parts + 1
          inflight := t.inflight ++ [job.part t.number] } := by
  have offset_eq : t.offset = (job.cursor t.number).1 := congrArg Prod.fst placed
  have len_eq : t.len = (job.cursor t.number).2 := congrArg Prod.snd placed
  rw [sendPart, if_neg more]
  simp only [cursor, part, partRead, offset_eq, len_eq]
  rfl

end Job

/-! ## Schedules that expose a failure -/

section Exposed

variable {job : Job}

/-- The state once the sender alone has submitted `k` parts. -/
def Job.submitted (job : Job) (k : ℕ) : Transfer where
  pc := .sending
  offset := (job.cursor k).1
  len := (job.cursor k).2
  retval := job.lastRead k
  number := k
  parts := k
  inflight := (List.range k).map job.part
  completed := []
  done := job.env.staleDone

theorem foldl_sender_eq_submitted {k : ℕ} (submits : job.Submits k) :
    (List.replicate k Move.sender).foldl job.move
        (Transfer.start job.env job.offset job.len) = job.submitted k := by
  induction k with
  | zero => rfl
  | succ k ih =>
      obtain ⟨more, read⟩ := submits k (Nat.lt_succ_self k)
      have counted : ((k : ℤ) + 1 = 0) = False := eq_false (by omega)
      have placed : ((job.submitted k).offset, (job.submitted k).len) = job.cursor k := rfl
      rw [List.replicate_succ', List.foldl_append, ih (submits.mono (Nat.le_succ k))]
      change sendPart job.file job.env (job.submitted k) = _
      rw [Job.sendPart_eq more placed]
      simp only [Job.submitted, not_lt.mpr read, if_false, counted, Job.lastRead,
        List.range_succ, List.map_append, List.map_cons, List.map_nil, Nat.cast_add,
        Nat.cast_one]

/-- What the callbacks of the first messages in the queue leave behind. -/
theorem foldl_callback {front rest : List Part} {t : Transfer}
    (queue : t.inflight = front ++ rest) :
    let after := (List.replicate front.length Move.callback).foldl job.move t
    after.pc = t.pc ∧ (after.offset, after.len) = (t.offset, t.len) ∧
      after.retval = t.retval ∧ after.number = t.number ∧ after.inflight = rest ∧
      after.completed = t.completed ++ front.map (fun p => (p, job.env.status p.number)) ∧
      t.done ≤ after.done ∧
      ((∃ p ∈ front, p.last = true ∨ job.env.status p.number ≠ 0) → 0 < after.done) ∧
      (∀ p, front.getLast? = some p → job.env.status p.number ≠ 0 → after.parts = -1) := by
  induction front generalizing t with
  | nil => simpa using queue
  | cons p front ih =>
      have first : job.move t .callback = { t with
          inflight := front ++ rest
          completed := t.completed ++ [(p, job.env.status p.number)]
          parts := if job.env.status p.number = 0 then t.parts - 1 else -1
          done := if p.last ∨ job.env.status p.number ≠ 0 then t.done + 1 else t.done } := by
        simp [Job.move, move, spiTransferCompleted, queue]
      have grown : t.done ≤ (job.move t .callback).done := by
        rw [first]
        dsimp only
        split <;> omega
      have queued : (job.move t .callback).inflight = front ++ rest := by rw [first]
      obtain ⟨pc, place, retval, number, inflight, completed, done, signalled, parts⟩ :=
        ih queued
      simp only [List.length_cons, List.replicate_succ, List.foldl_cons]
      refine ⟨?_, ?_, ?_, ?_, inflight, ?_, grown.trans done, ?_, ?_⟩
      · rw [pc, first]
      · rw [place, first]
      · rw [retval, first]
      · rw [number, first]
      · rw [completed, first]
        simp
      · rintro ⟨q, member, ends⟩
        rcases List.mem_cons.mp member with rfl | member
        · have now : 0 < (job.move t .callback).done := by
            rw [first]
            simp [ends]
          exact now.trans_le done
        · exact signalled ⟨q, member, ends⟩
      · intro q last failed
        cases front with
        | nil =>
            have same : p = q := by simpa using last
            subst same
            simp [first, failed]
        | cons r front => exact parts q (by simpa using last) failed

/-- Once all parts are sent and the completion is signalled, the sender returns
0 or the byte count of its last read. -/
theorem foldl_sender_finish {t : Transfer} (pc : t.pc = .sending) (sent : t.len = 0)
    (signalled : 0 < t.done) :
    let after := (List.replicate 4 Move.sender).foldl job.move t
    after.pc = .returned
        (if job.env.crcInitB = true ∧ job.env.done 0 = true then 0 else t.retval) ∧
      after.inflight = t.inflight ∧ after.completed = t.completed := by
  have waited : t.done ≠ 0 := Nat.ne_of_gt signalled
  by_cases crc : job.env.crcInitB = true <;> by_cases done : job.env.done 0 = true <;>
    simp [List.replicate, Job.move, move, senderMove, pc, sendPart, sent,
      waitForCompletion, waited, crcCheck, startup, pollDone, crc, done]

/-- Every schedule under which the call returns a non-negative value has
transferred the whole payload and seen both pins high. -/
def Job.Sound (job : Job) : Prop :=
  ∀ (schedule : List Move) (retval : ℤ),
    (schedule.foldl job.move (Transfer.start job.env job.offset job.len)).pc =
        .returned retval → 0 ≤ retval →
      (schedule.foldl job.move (Transfer.start job.env job.offset job.len)).AllTransferred ∧
        job.env.crcInitB = true ∧ job.env.done 0 = true

/-- `n` turns of the sender followed by `m` callbacks. -/
theorem foldl_submitted_completed {n m : ℕ} (submits : job.Submits n) (le : m ≤ n) :
    let t := (List.replicate n Move.sender ++ List.replicate m Move.callback).foldl job.move
      (Transfer.start job.env job.offset job.len)
    t.pc = .sending ∧ (t.offset, t.len) = job.cursor n ∧ t.retval = job.lastRead n ∧
      t.number = n ∧ t.inflight = ((List.range n).map job.part).drop m ∧
      t.completed = ((List.range m).map job.part).map
        (fun p => (p, job.env.status p.number)) ∧
      job.env.staleDone ≤ t.done ∧
      ((∃ k < m, (job.part k).last = true ∨ job.env.status (k + 1) ≠ 0) → 0 < t.done) ∧
      (∀ k, m = k + 1 → job.env.status m ≠ 0 → t.parts = -1) := by
  have front : ((List.range n).map job.part).take m = (List.range m).map job.part := by
    rw [← List.map_take, List.take_range, Nat.min_eq_left le]
  have queue : (job.submitted n).inflight =
      (List.range m).map job.part ++ ((List.range n).map job.part).drop m := by
    rw [← front, List.take_append_drop]
    rfl
  have called := @foldl_callback job _ _ _ queue
  obtain ⟨pc, place, retval, number, inflight, completed, done, signalled, parts⟩ := called
  simp only [List.length_map, List.length_range] at pc place retval number inflight
  simp only [List.length_map, List.length_range] at completed done signalled parts
  simp only [List.foldl_append, foldl_sender_eq_submitted submits]
  refine ⟨pc, place, retval, number, inflight, ?_, done, ?_, ?_⟩
  · simpa [Job.submitted] using completed
  · rintro ⟨k, lt, ends⟩
    exact signalled ⟨job.part k, by simpa using ⟨k, lt, rfl⟩, ends⟩
  · rintro k rfl failed
    exact parts (job.part k) (by simp [List.range_succ]) failed

/-- If the call is sound, then a completion that is signalled after all parts
have been sent is signalled for the right reason. -/
theorem Job.Sound.finish (sound : job.Sound) {n m : ℕ} (submits : job.Submits (n + 1))
    (sent : (job.cursor (n + 1)).2 = 0) (le : m ≤ n + 1)
    (signalled : 0 < job.env.staleDone ∨
      ∃ k < m, (job.part k).last = true ∨ job.env.status (k + 1) ≠ 0) :
    m = n + 1 ∧ (∀ k < m, job.env.status (k + 1) = 0) ∧
      job.env.crcInitB = true ∧ job.env.done 0 = true := by
  obtain ⟨pc, place, retval, -, inflight, completed, stale, ends, -⟩ :=
    foldl_submitted_completed submits le
  have len_eq := congrArg Prod.snd place
  have counted : 0 < ((List.replicate (n + 1) Move.sender ++
      List.replicate m Move.callback).foldl job.move
        (Transfer.start job.env job.offset job.len)).done := by
    rcases signalled with stuck | named
    · exact stuck.trans_le stale
    · exact ends named
  obtain ⟨result, kept, logged⟩ := foldl_sender_finish pc (len_eq.trans sent) counted
  rw [← List.foldl_append] at result kept logged
  have nonneg : 0 ≤ job.lastRead (n + 1) := (submits n (Nat.lt_succ_self n)).2
  obtain ⟨⟨-, none_left, -, all_zero⟩, pins⟩ := sound _ _ result (by
    split
    · exact le_refl 0
    · rw [retval]
      exact nonneg)
  rw [kept, inflight, List.drop_eq_nil_iff, List.length_map, List.length_range] at none_left
  refine ⟨le_antisymm le none_left, ?_, pins⟩
  intro k lt
  apply all_zero (job.part k, job.env.status (k + 1))
  rw [logged, completed]
  simpa using ⟨k, lt, rfl, rfl⟩

/-- A message that fails with parts behind it makes the loop leave at the next of
them, with the count of its read: the turn finds `config_transfer_parts` at -1. -/
theorem foldl_stopped {k : ℕ} (submits : job.Submits (k + 2))
    (failed : job.env.status (k + 1) ≠ 0) :
    let t := (List.replicate (k + 1) Move.sender ++ List.replicate (k + 1) Move.callback ++
      [Move.sender]).foldl job.move (Transfer.start job.env job.offset job.len)
    t.pc = .returned (job.partRead (k + 1)).1 ∧
      (job.part k, job.env.status (k + 1)) ∈ t.completed := by
  obtain ⟨more, read⟩ := submits (k + 1) (Nat.lt_succ_self _)
  obtain ⟨pc, place, -, number, -, completed, -, -, parts⟩ :=
    foldl_submitted_completed (submits.mono (Nat.le_succ (k + 1))) (le_refl (k + 1))
  rw [List.foldl_append]
  generalize List.foldl job.move (Transfer.start job.env job.offset job.len)
    (List.replicate (k + 1) Move.sender ++ List.replicate (k + 1) Move.callback) = t
    at pc place number completed parts
  have minus := parts k rfl failed
  have rest : t.len ≠ 0 := fun empty => more ((congrArg Prod.snd place).symm.trans empty)
  have moved : [Move.sender].foldl job.move t = sendPart job.file job.env t := by
    simp [Job.move, Configure.move, senderMove, pc]
  rw [moved, Job.sendPart_eq rest (number ▸ place), number, if_neg (not_lt.mpr read),
    if_pos (by rw [minus]; rfl)]
  refine ⟨rfl, ?_⟩
  dsimp only
  rw [completed]
  refine List.mem_map.mpr ⟨job.part k, List.mem_map.mpr ⟨k, ?_, rfl⟩, rfl⟩
  exact List.mem_range.mpr (Nat.lt_succ_self k)

/-- A sound call has no failure that stays unreported. -/
theorem Job.Sound.failuresReported (sound : job.Sound) : job.FailuresReported := by
  constructor
  · intro k submits next
    by_contra failed
    by_cases sent : (job.cursor (k + 1)).2 = 0
    · have settled := sound.finish submits sent (le_refl (k + 1))
        (Or.inr ⟨k, Nat.lt_succ_self k, Or.inr failed⟩)
      exact failed (settled.2.1 k (Nat.lt_succ_self k))
    · obtain ⟨pc, completed⟩ := foldl_stopped (submits.succ sent (next sent)) failed
      obtain ⟨⟨-, -, -, all_zero⟩, -⟩ := sound _ _ pc (next sent)
      exact failed (all_zero _ completed)
  · intro n submits sent
    refine ⟨?_, ?_, ?_⟩
    · by_contra stale
      have settled := sound.finish submits sent (Nat.zero_le (n + 1))
        (Or.inl (Nat.pos_of_ne_zero stale))
      exact absurd settled.1 (Nat.succ_ne_zero n).symm
    · intro k lt
      by_contra short
      have settled := sound.finish submits sent (Nat.succ_le_succ lt.le)
        (Or.inr ⟨k, Nat.lt_succ_self k, Or.inl (by simpa using short)⟩)
      omega
    · intro short
      exact (sound.finish submits sent (le_refl (n + 1))
        (Or.inr ⟨n, Nat.lt_succ_self n, Or.inl short⟩)).2.2

end Exposed

/-! ## Soundness when every failure is reported -/

section Reported

/-- The transfer is over and nothing is left to go wrong. -/
def Job.Settled (job : Job) (t : Transfer) : Prop :=
  t.AllTransferred ∧ (0 < t.number → job.env.crcInitB = true ∧ job.env.done 0 = true)

/-- What is known at each point of the sender. -/
def Job.Stage (job : Job) (t : Transfer) : Prop :=
  match t.pc with
  | .sending => True
  | .waiting => t.len = 0
  | .crcCheck => job.Settled t
  | .startup => job.Settled t ∧ job.env.crcInitB = true
  | .returned _ => False

/-- The invariant of a call that has not returned.  As long as no callback has
failed, `config_transfer_parts` counts the messages in flight; a callback that
has failed is about to be reported by the next read. -/
structure Job.Running (job : Job) (t : Transfer) : Prop where
  stage : job.Stage t
  submits : job.Submits t.number
  place : (t.offset, t.len) = job.cursor t.number
  retval : t.retval = job.lastRead t.number
  queue : t.completed.map Prod.fst ++ t.inflight = (List.range t.number).map job.part
  parts : (∀ entry ∈ t.completed, entry.2 = 0) → t.parts = t.inflight.length
  done : t.pc = .sending ∨ t.pc = .waiting → (∀ entry ∈ t.completed, entry.2 = 0) →
    t.done = job.env.staleDone + (t.completed.filter fun entry => entry.1.last).length
  failing : (∃ entry ∈ t.completed, entry.2 ≠ 0) →
    t.len ≠ 0 ∧ (job.partRead t.number).1 < 0

/-- The invariant of a call. -/
def Job.Inv (job : Job) (t : Transfer) : Prop :=
  (∃ retval, t.pc = .returned retval ∧
    (retval < 0 ∨ t.AllTransferred ∧ job.env.crcInitB = true ∧ job.env.done 0 = true)) ∨
  job.Running t

variable {job : Job} {t : Transfer}

theorem running_start : job.Running (Transfer.start job.env job.offset job.len) where
  stage := trivial
  submits := fun i lt => absurd lt (Nat.not_lt_zero i)
  place := rfl
  retval := rfl
  queue := rfl
  parts := fun _ => rfl
  done := fun _ _ => rfl
  failing := by
    rintro ⟨entry, member, -⟩
    exact absurd member List.not_mem_nil

/-- The head of the queue is the part after those that have completed. -/
theorem Job.Running.head (running : job.Running t) {p : Part} {rest : List Part}
    (queue : t.inflight = p :: rest) :
    ∃ k, k < t.number ∧ p = job.part k := by
  have member : p ∈ (List.range t.number).map job.part := by
    rw [← running.queue, queue]
    simp
  obtain ⟨k, lt, same⟩ := List.mem_map.mp member
  exact ⟨k, List.mem_range.mp lt, same.symm⟩

theorem Job.Running.zero_of_sent (running : job.Running t) (sent : t.len = 0) :
    ∀ entry ∈ t.completed, entry.2 = 0 := by
  intro entry member
  by_contra failed
  exact (running.failing ⟨entry, member, failed⟩).1 sent

/-- With nothing in flight, every part that has been read has completed. -/
theorem Job.Running.completed_length (running : job.Running t) (landed : t.inflight = []) :
    t.completed.length = t.number := by
  simpa [landed] using congrArg List.length running.queue

/-- If the final part has completed, nothing is in flight. -/
theorem inflight_nil_of_final {n : ℕ}
    (queue : t.completed.map Prod.fst ++ t.inflight = (List.range (n + 1)).map job.part)
    {status : ℤ} (completed : (job.part n, status) ∈ t.completed) : t.inflight = [] := by
  rw [List.range_succ, List.map_append, List.map_singleton] at queue
  by_contra nonempty
  obtain ⟨front, final, split⟩ := List.eq_nil_or_concat t.inflight |>.resolve_left nonempty
  rw [split, List.concat_eq_append, ← List.append_assoc] at queue
  have earlier : t.completed.map Prod.fst ++ front = (List.range n).map job.part :=
    (List.append_inj' queue rfl).1
  have member : job.part n ∈ (List.range n).map job.part := by
    rw [← earlier]
    exact List.mem_append_left _ (List.mem_map.mpr ⟨_, completed, rfl⟩)
  obtain ⟨k, lt, same⟩ := List.mem_map.mp member
  have numbers : k + 1 = n + 1 := congrArg Part.number same
  exact absurd (List.mem_range.mp lt) (by omega)

/-- The completion is signalled only when the call is settled. -/
theorem Job.Running.settled (running : job.Running t) (reported : job.FailuresReported)
    (pc : t.pc = .waiting) (sent : t.len = 0) (signalled : t.done ≠ 0) : job.Settled t := by
  have zero := running.zero_of_sent sent
  have count := running.done (Or.inr pc) zero
  cases number : t.number with
  | zero =>
      have none_left : t.completed = [] ∧ t.inflight = [] := by
        simpa [number] using running.queue
      exact ⟨⟨sent, none_left.2, running.completed_length none_left.2, zero⟩,
        fun positive => absurd positive (by omega)⟩
  | succ n =>
      have cursor_zero : (job.cursor (n + 1)).2 = 0 := by
        rw [← number, ← running.place]
        exact sent
      obtain ⟨stale, full, pins⟩ :=
        reported.finish n (number ▸ running.submits) cursor_zero
      -- Somebody signalled, and the only part that may do so is the final one.
      have some_last : 0 < (t.completed.filter fun entry => entry.1.last).length := by omega
      obtain ⟨entry, member⟩ := List.exists_mem_of_length_pos some_last
      obtain ⟨completed, last⟩ := List.mem_filter.mp member
      have listed : entry.1 ∈ (List.range (n + 1)).map job.part := by
        rw [← number, ← running.queue]
        exact List.mem_append_left _ (List.mem_map.mpr ⟨entry, completed, rfl⟩)
      obtain ⟨k, lt, same⟩ := List.mem_map.mp listed
      have final : k = n := by
        by_contra early
        have before : k < n := by
          have := List.mem_range.mp lt
          omega
        have not_last := full k before
        rw [same] at not_last
        simp [not_last] at last
      subst final
      have whole : (job.part k, entry.2) ∈ t.completed := by
        rw [same]
        exact completed
      have landed := inflight_nil_of_final (number ▸ running.queue) whole
      exact ⟨⟨sent, landed, running.completed_length landed, zero⟩,
        fun _ => pins (by rw [same]; simpa using last)⟩

theorem Job.Running.sendPart (running : job.Running t) (pc : t.pc = .sending) :
    job.Inv (sendPart job.file job.env t) := by
  by_cases sent : t.len = 0
  · apply Or.inr
    rw [Configure.sendPart, if_pos sent]
    exact { running with
      stage := sent
      done := fun _ zero => running.done (Or.inl pc) zero }
  · have more : (job.cursor t.number).2 ≠ 0 := by
      rw [← running.place]
      exact sent
    rw [Job.sendPart_eq sent running.place]
    by_cases failed : (job.partRead t.number).1 < 0
    · rw [if_pos failed]
      exact Or.inl ⟨_, rfl, Or.inl failed⟩
    · have zero : ∀ entry ∈ t.completed, entry.2 = 0 := by
        intro entry member
        by_contra bad
        exact failed (running.failing ⟨entry, member, bad⟩).2
      have parts := running.parts zero
      have counted : ¬ t.parts + 1 = 0 := by omega
      rw [if_neg failed, if_neg counted]
      refine Or.inr ⟨?_, running.submits.succ more (not_lt.mp failed), rfl, rfl, ?_, ?_,
        fun _ => running.done (Or.inl pc), ?_⟩
      · simp [Job.Stage, pc]
      · simp only [List.range_succ, List.map_append, List.map_singleton, ← running.queue,
          List.append_assoc]
      · intro _
        simp [parts]
      · rintro ⟨entry, member, bad⟩
        exact absurd (zero entry member) bad

/-- A settled call whose pins are not both high has read nothing. -/
theorem Job.Running.retval_neg (running : job.Running t) (settled : job.Settled t)
    (low : ¬ (job.env.crcInitB = true ∧ job.env.done 0 = true)) : t.retval < 0 := by
  have nothing : t.number = 0 := by
    by_contra some_read
    exact low (settled.2 (Nat.pos_of_ne_zero some_read))
  rw [running.retval, nothing]
  change -eio < 0
  decide

theorem Job.Running.sender (running : job.Running t) (reported : job.FailuresReported) :
    job.Inv (senderMove job.file job.env t) := by
  have stage := running.stage
  unfold Job.Stage at stage
  unfold senderMove
  cases pc : t.pc with
  | sending => exact running.sendPart pc
  | waiting =>
      rw [pc] at stage
      simp only [waitForCompletion]
      split
      · exact Or.inr running
      · rename_i signalled
        refine Or.inr { running with
          stage := running.settled reported pc stage signalled
          done := ?_ }
        rintro (early | early) <;> cases early
  | crcCheck =>
      rw [pc] at stage
      simp only [crcCheck]
      split
      · rename_i high
        refine Or.inr { running with stage := ⟨stage, high⟩, done := ?_ }
        rintro (early | early) <;> cases early
      · rename_i low
        refine Or.inl ⟨_, rfl, Or.inl ?_⟩
        exact running.retval_neg stage fun pins => low pins.1
  | startup =>
      rw [pc] at stage
      obtain ⟨settled, crc⟩ := stage
      simp only [startup, pollDone]
      split
      · rename_i high
        exact Or.inl ⟨0, rfl, Or.inr ⟨settled.1, crc, by simpa using high⟩⟩
      · rename_i low
        refine Or.inl ⟨_, rfl, Or.inl ?_⟩
        exact running.retval_neg settled fun pins => low (by simp [pins.2])
  | returned retval =>
      rw [pc] at stage
      exact stage.elim

/-- A callback that fails does so right before a read that fails. -/
theorem Job.Running.failing_of_status (running : job.Running t)
    (reported : job.FailuresReported) {k : ℕ} (lt : k < t.number)
    (failed : job.env.status (k + 1) ≠ 0) :
    t.len ≠ 0 ∧ (job.partRead t.number).1 < 0 := by
  have submits : job.Submits (k + 1) := running.submits.mono lt
  have unread : ¬ ((job.cursor (k + 1)).2 ≠ 0 → 0 ≤ (job.partRead (k + 1)).1) :=
    fun next => failed (reported.status k submits next)
  obtain ⟨more, bad⟩ := Classical.not_imp.mp unread
  have final : t.number = k + 1 := by
    by_contra later
    exact bad (running.submits (k + 1) (by omega)).2
  rw [final]
  refine ⟨?_, not_le.mp bad⟩
  have len_eq : t.len = (job.cursor t.number).2 := congrArg Prod.snd running.place
  rw [len_eq, final]
  exact more

/-- Messages are in flight only before the completion has been waited for. -/
theorem Job.Running.early (running : job.Running t) (nonempty : t.inflight ≠ []) :
    t.pc = .sending ∨ t.pc = .waiting := by
  have stage := running.stage
  unfold Job.Stage at stage
  cases pc : t.pc with
  | sending => exact Or.inl rfl
  | waiting => exact Or.inr rfl
  | crcCheck =>
      rw [pc] at stage
      exact absurd stage.1.2.1 nonempty
  | startup =>
      rw [pc] at stage
      exact absurd stage.1.1.2.1 nonempty
  | returned retval =>
      rw [pc] at stage
      exact stage.elim

theorem Job.Running.callback (running : job.Running t) (reported : job.FailuresReported) :
    job.Running (spiTransferCompleted job.env t) := by
  unfold spiTransferCompleted
  cases queue : t.inflight with
  | nil => exact running
  | cons p rest =>
      obtain ⟨k, lt, rfl⟩ := running.head queue
      have early := running.early (by simp [queue])
      have zero_of {entries : List (Part × ℤ)} {entry : Part × ℤ}
          (zero : ∀ other ∈ entries ++ [entry], other.2 = 0) :
          (∀ other ∈ entries, other.2 = 0) ∧ entry.2 = 0 :=
        ⟨fun other member => zero other (List.mem_append_left _ member),
          zero entry (by simp)⟩
      refine ⟨?_, running.submits, running.place, running.retval, ?_, ?_, ?_, ?_⟩
      · have stage := running.stage
        unfold Job.Stage at stage ⊢
        rcases early with pc | pc
        · simp [pc]
        · simpa [pc] using stage
      · have whole := running.queue
        rw [queue] at whole
        simpa using whole
      · intro zero
        obtain ⟨before, now⟩ := zero_of zero
        have parts := running.parts before
        rw [queue, List.length_cons] at parts
        have now : job.env.status (job.part k).number = 0 := now
        simp only [now, if_true]
        push_cast at parts
        omega
      · intro _ zero
        obtain ⟨before, now⟩ := zero_of zero
        have done := running.done early before
        have now : job.env.status (job.part k).number = 0 := now
        by_cases last : (job.part k).last = true <;>
          simp [now, last, done, List.filter_append, Nat.add_assoc]
      · rintro ⟨entry, member, failed⟩
        rcases List.mem_append.mp member with before | now
        · exact running.failing ⟨entry, before, failed⟩
        · obtain rfl : entry = _ := List.mem_singleton.mp now
          exact running.failing_of_status reported lt failed

/-- Every move keeps the invariant. -/
theorem inv_move (reported : job.FailuresReported) (inv : job.Inv t) (who : Move) :
    job.Inv (job.move t who) := by
  rcases inv with ⟨retval, pc, ok⟩ | running
  · cases who with
    | sender =>
        have still : job.move t .sender = t := by simp [Job.move, move, senderMove, pc]
        rw [still]
        exact Or.inl ⟨retval, pc, ok⟩
    | callback =>
        refine Or.inl ⟨retval, ?_, ?_⟩
        · change (spiTransferCompleted job.env t).pc = _
          unfold spiTransferCompleted
          split <;> exact pc
        · rcases ok with negative | ⟨transferred, pins⟩
          · exact Or.inl negative
          · have still : job.move t .callback = t := by
              simp [Job.move, move, spiTransferCompleted, transferred.2.1]
            rw [still]
            exact Or.inr ⟨transferred, pins⟩
  · cases who with
    | sender => exact running.sender reported
    | callback => exact Or.inr (running.callback reported)

/-- If every failure is reported, then every schedule is sound. -/
theorem Job.FailuresReported.sound (reported : job.FailuresReported) : job.Sound := by
  intro schedule retval returned nonneg
  have inv : job.Inv (schedule.foldl job.move (Transfer.start job.env job.offset job.len)) :=
    Transition.foldl_invariant job.move job.Inv (fun _ who inv => inv_move reported inv who)
      (Or.inr running_start) schedule
  rcases inv with ⟨actual, pc, ok⟩ | running
  · obtain rfl : actual = retval := by
      rw [returned] at pc
      exact (Pc.returned.inj pc).symm
    exact ok.resolve_left (not_lt.mpr nonneg)
  · have stage := running.stage
    rw [Job.Stage, returned] at stage
    exact stage.elim

end Reported

/-! ## A result of zero -/

section Zero

variable {file : File} {env : ConfigEnv}

/-- Every read delivers what the file has. -/
theorem readPart_whole (reads : ∀ number, env.readIo number = .upTo MAX_RW_COUNT)
    (number : ℕ) (offset len : UInt32) :
    readPart file env number offset len =
      (((slice offset.toNat (min PAGE_SIZE len.toNat) file).length : ℤ),
        slice offset.toNat (min PAGE_SIZE len.toNat) file) := by
  have small : min PAGE_SIZE len.toNat ≤ MAX_RW_COUNT :=
    (min_le_left _ _).trans (by decide)
  have served : 0 ≤ (readPart file env number offset len).1 := by
    rw [← not_lt, readPart, kernelRead_neg_iff, reads]
    rintro (large | failed)
    · exact absurd (large.trans small) (by decide)
    · contradiction
  rw [readPart, reads] at served ⊢
  exact kernelRead_whole le_rfl small served

theorem move_sender_of_sending {t : Transfer} (pc : t.pc = .sending) :
    move file env t .sender = sendPart file env t := by
  simp only [move, senderMove, pc]

end Zero

end Rhino.Hwr.Configure
