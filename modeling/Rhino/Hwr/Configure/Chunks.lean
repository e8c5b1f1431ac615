import Rhino.Hwr.Configure.Correctness

/-!
# Cutting the bitstream into parts

What `rhino_configure` hands to `spi_async` when every read delivers what it is
asked for and no message fails, except perhaps the final one.  Then the callbacks
do not disturb the sending loop, and the parts are the pages of the payload in
order, whatever the schedule: `Smooth` is the invariant.

Two details of the loop show in the results.  `offset` has 32 bits, so that a
payload must end below 4 GiB to be sent as it is.  And a part counts as the last
one if it is shorter than a page, so that a payload of whole pages has no last
part, and the wait for the completion does not end.
-/

namespace Rhino.Hwr.Configure

open Rhino.Bof Rhino.Bytes Rhino.Kernel

/-- The messages that have been handed to `spi_async`, in order. -/
def Transfer.handed (t : Transfer) : List Part :=
  t.completed.map Prod.fst ++ t.inflight

/-- The sender is behind `wait_for_completion`, which has taken one from the
completion. -/
def Pc.waited : Pc → ℕ
  | .sending => 0
  | .waiting => 0
  | _ => 1

namespace Job

variable (job : Job)

/-- Every read of the loop returns the count that it was asked for. -/
def ReadsInFull : Prop :=
  ∀ k, (job.cursor k).2 ≠ 0 →
    (job.partRead k).1 = (min PAGE_SIZE (job.cursor k).2.toNat : ℕ)

/-- How many parts the payload has. -/
def count : ℕ :=
  (job.len.toNat + (PAGE_SIZE - 1)) / PAGE_SIZE

/-- How many bytes the first `k` parts have. -/
def sent (k : ℕ) : ℕ :=
  min (PAGE_SIZE * k) job.len.toNat

/-- Every part succeeds. -/
def Succeeds : Prop :=
  ∀ k < job.count, job.env.status (k + 1) = 0

/-- Every part but possibly the final one succeeds. -/
def EarlySucceed : Prop :=
  ∀ k, k + 1 < job.count → job.env.status (k + 1) = 0

/-- The callback of this part signals the completion. -/
def Signals (p : Part) : Prop :=
  p.last = true ∨ job.env.status p.number ≠ 0

instance (p : Part) : Decidable (job.Signals p) :=
  inferInstanceAs (Decidable (_ ∨ _))

/-- The final part signals the completion: it does not fill its page, or it
fails. -/
def Ends : Prop :=
  job.len.toNat % PAGE_SIZE ≠ 0 ∨ (job.len ≠ 0 ∧ job.env.status job.count ≠ 0)

instance : Decidable job.Ends :=
  inferInstanceAs (Decidable (_ ∨ _ ∧ _))

variable {job}

theorem Succeeds.early (succeeds : job.Succeeds) : job.EarlySucceed :=
  fun k lt => succeeds k (Nat.lt_of_succ_lt lt)

theorem lt_of_lt_count {k : ℕ} (lt : k < job.count) : PAGE_SIZE * k < job.len.toNat := by
  unfold count PAGE_SIZE at lt
  unfold PAGE_SIZE
  omega

theorem sent_count : job.sent job.count = job.len.toNat := by
  unfold sent count PAGE_SIZE
  omega

theorem sent_le (k : ℕ) : job.sent k ≤ job.len.toNat :=
  min_le_right _ _

theorem sent_of_lt {k : ℕ} (lt : k < job.count) : job.sent k = PAGE_SIZE * k :=
  min_eq_left (lt_of_lt_count lt).le

theorem sent_succ (k : ℕ) :
    job.sent (k + 1) = job.sent k + min PAGE_SIZE (job.len.toNat - job.sent k) := by
  unfold sent PAGE_SIZE
  omega

theorem toNat_ofNat_sent (k : ℕ) : (UInt32.ofNat (job.sent k)).toNat = job.sent k :=
  UInt32.toNat_ofNat_of_lt' ((sent_le k).trans_lt job.len.toNat_lt)

theorem toNat_len_sub_sent (k : ℕ) :
    (job.len - UInt32.ofNat (job.sent k)).toNat = job.len.toNat - job.sent k :=
  toNat_sub_ofNat (sent_le k)

/-- A read of the loop, served in full. -/
theorem partRead_full {k : ℕ}
    (full : (job.partRead k).1 = (min PAGE_SIZE (job.cursor k).2.toNat : ℕ)) :
    (job.partRead k).2 =
        slice (job.cursor k).1.toNat (min PAGE_SIZE (job.cursor k).2.toNat) job.file ∧
      (job.partRead k).2.length = min PAGE_SIZE (job.cursor k).2.toNat := by
  have read := kernelRead_full full
  exact ⟨read.1, (congrArg List.length read.1).trans read.2⟩

theorem more_of_lt_count {k : ℕ} (lt : k < job.count)
    (left : (job.cursor k).2 = job.len - UInt32.ofNat (job.sent k)) : (job.cursor k).2 ≠ 0 := by
  intro zero
  have none_left : 0 = job.len.toNat - job.sent k := by
    rw [← toNat_len_sub_sent, ← left, zero]
    rfl
  have inside := lt_of_lt_count lt
  rw [sent_of_lt lt] at none_left
  omega

/-- Where the loop is after `k` parts that have been read in full. -/
theorem cursor_of_full {k : ℕ} (le : k ≤ job.count)
    (full : ∀ i < k, (job.cursor i).2 ≠ 0 →
      (job.partRead i).1 = (min PAGE_SIZE (job.cursor i).2.toNat : ℕ)) :
    job.cursor k =
      (job.offset + UInt32.ofNat (job.sent k), job.len - UInt32.ofNat (job.sent k)) := by
  induction k with
  | zero => simp [Job.cursor, sent]
  | succ k ih =>
      have place := ih (Nat.le_of_succ_le le) fun i lt => full i (lt.trans (Nat.lt_succ_self k))
      have left : (job.cursor k).2 = job.len - UInt32.ofNat (job.sent k) :=
        congrArg Prod.snd place
      have more := more_of_lt_count le left
      have length_eq : (readPart job.file job.env (k + 1) (job.cursor k).1
          (job.cursor k).2).2.length = min PAGE_SIZE (job.len.toNat - job.sent k) := by
        rw [← toNat_len_sub_sent, ← left]
        exact (partRead_full (full k (Nat.lt_succ_self k) more)).2
      rw [Job.cursor]
      dsimp only
      rw [length_eq, place, sent_succ, UInt32.ofNat_add]
      simp only [UInt32.sub_eq_add_neg, UInt32.neg_add, UInt32.add_assoc]

/-- Nothing is read any more once nothing is left. -/
theorem cursor_zero_of_le {k n : ℕ} (zero : (job.cursor k).2 = 0) (le : k ≤ n) :
    (job.cursor n).2 = 0 := by
  induction n, le using Nat.le_induction with
  | base => exact zero
  | succ n _ ih =>
      have nothing : (readPart job.file job.env (n + 1) (job.cursor n).1 0).2 = [] := by
        unfold readPart kernelRead
        cases job.env.readIo (n + 1) <;> simp [slice]
      rw [Job.cursor]
      dsimp only
      rw [ih, nothing]
      rfl

/-- Reads that deliver what the file has are full wherever the file has enough. -/
theorem readsInFull_of_inside (reads : ∀ number, job.env.readIo number = .upTo MAX_RW_COUNT)
    (inside : ∀ k < job.count, (job.offset + UInt32.ofNat (job.sent k)).toNat +
      min PAGE_SIZE (job.len.toNat - job.sent k) ≤ job.file.length) : job.ReadsInFull := by
  intro k
  induction k using Nat.strong_induction_on with
  | h k ih =>
      intro more
      have lt : k < job.count := by
        by_contra past
        have zero : (job.cursor job.count).2 = 0 := by
          rw [cursor_of_full le_rfl fun i lt => ih i (lt.trans_le (not_lt.mp past)), sent_count,
            UInt32.ofNat_toNat, UInt32.sub_self]
        exact more (cursor_zero_of_le zero (not_lt.mp past))
      have place := cursor_of_full lt.le ih
      rw [partRead, readPart_whole reads, place, toNat_len_sub_sent, Nat.cast_inj, slice_length]
      have enough := inside k lt
      dsimp only
      omega

/-- A payload of at most one page has one part. -/
theorem readsInFull_of_page (reads : ∀ number, job.env.readIo number = .upTo MAX_RW_COUNT)
    (page : job.len.toNat ≤ PAGE_SIZE)
    (inside : job.offset.toNat + job.len.toNat ≤ job.file.length) : job.ReadsInFull := by
  apply readsInFull_of_inside reads
  intro k lt
  have first : k = 0 := by
    have before := (lt_of_lt_count lt).trans_le page
    unfold PAGE_SIZE at before
    omega
  have none_sent : job.sent k = 0 := by
    rw [sent_of_lt lt, first, Nat.mul_zero]
  rw [none_sent, Nat.sub_zero, min_eq_right page]
  exact (congrArg (·.toNat + job.len.toNat) (UInt32.add_zero job.offset)).trans_le inside

/-! ## The parts -/

section Full

variable (full : job.ReadsInFull)
include full

theorem ReadsInFull.cursor {k : ℕ} (le : k ≤ job.count) :
    job.cursor k =
      (job.offset + UInt32.ofNat (job.sent k), job.len - UInt32.ofNat (job.sent k)) :=
  cursor_of_full le fun i _ => full i

theorem ReadsInFull.more {k : ℕ} (lt : k < job.count) : (job.cursor k).2 ≠ 0 :=
  more_of_lt_count lt (congrArg Prod.snd (full.cursor lt.le))

theorem ReadsInFull.cursor_count : (job.cursor job.count).2 = 0 := by
  rw [full.cursor le_rfl, sent_count, UInt32.ofNat_toNat, UInt32.sub_self]

theorem ReadsInFull.submits {k : ℕ} (le : k ≤ job.count) : job.Submits k := by
  intro i lt
  have more := full.more (lt.trans_le le)
  refine ⟨more, ?_⟩
  rw [full i more]
  exact Int.natCast_nonneg _

/-- The data of a part: the bytes at the offset of the loop. -/
theorem ReadsInFull.data_part {k : ℕ} (lt : k < job.count) :
    (job.part k).data = slice (job.offset + UInt32.ofNat (job.sent k)).toNat
      (job.sent (k + 1) - job.sent k) job.file := by
  have read := (partRead_full (full k (full.more lt))).1
  rw [full.cursor lt.le, toNat_len_sub_sent] at read
  rw [sent_succ, Nat.add_sub_cancel_left]
  exact read

theorem ReadsInFull.length_part {k : ℕ} (lt : k < job.count) :
    (job.part k).data.length = job.sent (k + 1) - job.sent k := by
  have read := (partRead_full (full k (full.more lt))).2
  rw [full.cursor lt.le, toNat_len_sub_sent] at read
  rw [sent_succ, Nat.add_sub_cancel_left]
  exact read

/-- No part is empty or longer than a page. -/
theorem ReadsInFull.length_bounds {k : ℕ} (lt : k < job.count) :
    1 ≤ (job.part k).data.length ∧ (job.part k).data.length ≤ PAGE_SIZE := by
  have inside := lt_of_lt_count lt
  rw [full.length_part lt, sent_succ, sent_of_lt lt]
  unfold PAGE_SIZE at inside ⊢
  omega

/-- Below 4 GiB the first parts together are the front of the payload. -/
theorem ReadsInFull.flatten_parts (low : job.offset.toNat + job.len.toNat ≤ 2 ^ 32) {k : ℕ}
    (le : k ≤ job.count) :
    (((List.range k).map job.part).map Part.data).flatten =
      slice job.offset.toNat (job.sent k) job.file := by
  induction k with
  | zero => simp [sent, slice]
  | succ k ih =>
      have inside := lt_of_lt_count le
      have offset_eq : (job.offset + UInt32.ofNat (job.sent k)).toNat =
          job.offset.toNat + job.sent k := by
        rw [UInt32.toNat_add, toNat_ofNat_sent, sent_of_lt le]
        apply Nat.mod_eq_of_lt
        omega
      have grows : job.sent k ≤ job.sent (k + 1) := by
        rw [sent_succ]
        exact Nat.le_add_right _ _
      rw [List.range_succ, List.map_append, List.map_append, List.flatten_append,
        ih (Nat.le_of_succ_le le), List.map_singleton, List.map_singleton,
        List.flatten_singleton, full.data_part le, slice_append_slice offset_eq,
        Nat.add_sub_cancel' grows]

/-- A part is the last one exactly if it is the end of a payload that does not
fill its pages. -/
theorem ReadsInFull.last_part_iff {k : ℕ} (lt : k < job.count) :
    (job.part k).last = true ↔ k + 1 = job.count ∧ job.len.toNat % PAGE_SIZE ≠ 0 := by
  have inside := lt_of_lt_count lt
  have length_eq := full.length_part lt
  rw [sent_succ, sent_of_lt lt] at length_eq
  have last_iff : (job.part k).last = true ↔ (job.part k).data.length < PAGE_SIZE :=
    decide_eq_true_iff
  rw [last_iff, length_eq]
  unfold count PAGE_SIZE at *
  omega

/-- Before the final part no callback signals the completion. -/
theorem ReadsInFull.not_signals (early : job.EarlySucceed) {k : ℕ}
    (before : k + 1 < job.count) : ¬ job.Signals (job.part k) := by
  rintro (last | failed)
  · exact before.ne ((full.last_part_iff (Nat.lt_of_succ_lt before)).mp last).1
  · exact failed (early k before)

theorem ReadsInFull.signals_final_iff {n : ℕ} (final : job.count = n + 1) :
    job.Signals (job.part n) ↔ job.Ends := by
  have nonzero : job.len ≠ 0 := by
    intro zero
    rw [count, zero] at final
    contradiction
  have lt : n < job.count := by
    rw [final]
    exact Nat.lt_succ_self n
  have last_iff := full.last_part_iff lt
  unfold Signals Ends
  rw [last_iff, final]
  simp [part, nonzero]

end Full

end Job

/-! ## Calls in which at most the final part fails -/

section Smooth

/-- The invariant of such a call: the sender is where its parts have brought it,
the messages are its parts, and the completion has been signalled by those whose
callbacks do so. -/
structure Job.Smooth (job : Job) (t : Transfer) : Prop where
  number : t.number ≤ job.count
  place : (t.offset, t.len) = job.cursor t.number
  handed : t.handed = (List.range t.number).map job.part
  status : ∀ entry ∈ t.completed, entry.2 = job.env.status entry.1.number
  parts : (∀ entry ∈ t.completed, entry.2 = 0) → t.parts = t.inflight.length
  signals : t.done + t.pc.waited = job.env.staleDone +
    ((t.completed.map Prod.fst).filter fun p => job.Signals p).length
  left : t.pc ≠ .sending → t.number = job.count

variable {job : Job} {t : Transfer}

theorem smooth_start : job.Smooth (Transfer.start job.env job.offset job.len) where
  number := Nat.zero_le _
  place := rfl
  handed := rfl
  status := fun _ member => absurd member List.not_mem_nil
  parts := fun _ => rfl
  signals := rfl
  left := fun moved => absurd rfl moved

namespace Job.Smooth

/-- What has completed is a part that has been handed over. -/
theorem exists_part (smooth : job.Smooth t) {entry : Part × ℤ} (member : entry ∈ t.completed) :
    ∃ k < t.number, entry.1 = job.part k := by
  have listed : entry.1 ∈ (List.range t.number).map job.part := by
    rw [← smooth.handed]
    exact List.mem_append_left _ (List.mem_map_of_mem member)
  obtain ⟨k, lt, same⟩ := List.mem_map.mp listed
  exact ⟨k, List.mem_range.mp lt, same.symm⟩

theorem zero_of_lt (smooth : job.Smooth t) (early : job.EarlySucceed)
    (more : t.number < job.count) : ∀ entry ∈ t.completed, entry.2 = 0 := by
  intro entry member
  obtain ⟨k, lt, same⟩ := smooth.exists_part member
  rw [smooth.status entry member, same]
  exact early k (Nat.lt_of_le_of_lt lt more)

theorem callback (smooth : job.Smooth t) : job.Smooth (spiTransferCompleted job.env t) := by
  unfold spiTransferCompleted
  cases queue : t.inflight with
  | nil => exact smooth
  | cons p rest =>
      have handed := smooth.handed
      rw [Transfer.handed, queue] at handed
      refine ⟨smooth.number, smooth.place, ?_, ?_, ?_, ?_, smooth.left⟩
      · simpa [Transfer.handed] using handed
      · intro entry listed
        rcases List.mem_append.mp listed with before | now
        · exact smooth.status entry before
        · rw [List.mem_singleton.mp now]
      · intro zero
        have parts := smooth.parts fun entry before => zero entry (List.mem_append_left _ before)
        have now : job.env.status p.number = 0 :=
          zero (p, job.env.status p.number) (List.mem_append_right _ (List.mem_singleton_self _))
        rw [queue] at parts
        simp [now, parts]
      · have signals := smooth.signals
        by_cases last : job.Signals p
        · have last' : p.last = true ∨ job.env.status p.number ≠ 0 := last
          simp only [last', if_true]
          rw [Nat.add_right_comm, signals]
          simp [List.filter_append, last, Nat.add_assoc]
        · have last' : ¬ (p.last = true ∨ job.env.status p.number ≠ 0) := last
          simp only [last', if_false]
          rw [signals]
          simp [List.filter_append, last]

/-- The loop is left for good. -/
theorem left_move (moved : t.pc ≠ .sending) (who : Move) : (job.move t who).pc ≠ .sending := by
  cases who with
  | sender =>
      change (senderMove job.file job.env t).pc ≠ .sending
      unfold senderMove
      cases pc : t.pc with
      | sending => exact absurd pc moved
      | waiting =>
          simp only [waitForCompletion]
          split <;> simp [pc]
      | crcCheck =>
          simp only [crcCheck]
          split <;> simp
      | startup =>
          simp only [startup]
          split <;> simp
      | returned retval => simp [pc]
  | callback =>
      change (spiTransferCompleted job.env t).pc ≠ .sending
      unfold spiTransferCompleted
      split <;> exact moved

theorem left_foldl (moved : t.pc ≠ .sending) (schedule : List Move) :
    (schedule.foldl job.move t).pc ≠ .sending :=
  Transition.foldl_invariant job.move (fun t => t.pc ≠ .sending)
    (fun _ who moved => left_move moved who) moved schedule

/-- The callbacks of all messages in flight. -/
theorem drained (t : Transfer) {n : ℕ} (enough : t.inflight.length ≤ n) :
    ((List.replicate n Move.callback).foldl job.move t).inflight = [] ∧
      ((List.replicate n Move.callback).foldl job.move t).pc = t.pc := by
  induction n generalizing t with
  | zero => exact ⟨List.length_eq_zero_iff.mp (Nat.le_zero.mp enough), rfl⟩
  | succ n ih =>
      rw [List.replicate_succ, List.foldl_cons]
      have called : (job.move t .callback).inflight = t.inflight.tail ∧
          (job.move t .callback).pc = t.pc := by
        change (spiTransferCompleted job.env t).inflight = _ ∧
          (spiTransferCompleted job.env t).pc = _
        unfold spiTransferCompleted
        cases queue : t.inflight with
        | nil => simp [queue]
        | cons p rest => simp
      obtain ⟨empty, pc⟩ := ih (job.move t .callback) (by
        rw [called.1, List.length_tail]
        omega)
      exact ⟨empty, pc.trans called.2⟩

/-- Once the completion has been signalled the sender comes to its end. -/
theorem returns (moved : t.pc ≠ .sending) (signalled : t.pc = .waiting → t.done ≠ 0) :
    ∃ retval, ((List.replicate 3 Move.sender).foldl job.move t).pc = .returned retval := by
  by_cases crc : job.env.crcInitB = true <;> by_cases high : job.env.done 0 = true <;>
    cases pc : t.pc with
    | sending => exact absurd pc moved
    | waiting =>
        simp [List.replicate, Job.move, Configure.move, senderMove, pc, waitForCompletion,
          signalled pc, crcCheck, startup, pollDone, crc, high]
    | crcCheck =>
        simp [List.replicate, Job.move, Configure.move, senderMove, pc, crcCheck, startup,
          pollDone, crc, high]
    | startup =>
        simp [List.replicate, Job.move, Configure.move, senderMove, pc, startup, pollDone, high]
    | returned retval =>
        simp [List.replicate, Job.move, Configure.move, senderMove, pc]

theorem handed_of_left (smooth : job.Smooth t) (moved : t.pc ≠ .sending) :
    t.handed = (List.range job.count).map job.part := by
  rw [smooth.handed, smooth.left moved]

/-- Once the final part has completed, nothing is in flight. -/
theorem settled_of_final (smooth : job.Smooth t) {n : ℕ} (final : job.count = n + 1)
    {entry : Part × ℤ} (member : entry ∈ t.completed) (same : entry.1 = job.part n) :
    t.number = job.count ∧ t.inflight = [] := by
  obtain ⟨k, lt, other⟩ := smooth.exists_part member
  have number_eq : k + 1 = n + 1 := congrArg Part.number (other.symm.trans same)
  have all : t.number = n + 1 := by
    have bound := smooth.number
    omega
  have whole : (job.part n, entry.2) ∈ t.completed := by
    rw [← same]
    exact member
  exact ⟨all.trans final.symm, inflight_nil_of_final (all ▸ smooth.handed) whole⟩

theorem len_eq_zero_iff (smooth : job.Smooth t) (full : job.ReadsInFull) :
    t.len = 0 ↔ t.number = job.count := by
  have len_eq : t.len = (job.cursor t.number).2 := congrArg Prod.snd smooth.place
  rw [len_eq]
  constructor
  · intro zero
    by_contra before
    exact full.more (lt_of_le_of_ne smooth.number before) zero
  · intro all
    rw [all]
    exact full.cursor_count

variable (smooth : job.Smooth t) (full : job.ReadsInFull) (early : job.EarlySucceed)
include smooth full early

/-- A turn of the loop hands over the next part. -/
theorem sendPart_eq (more : t.number < job.count) :
    sendPart job.file job.env t =
      { t with
        retval := (job.partRead t.number).1
        number := t.number + 1
        len := (job.cursor (t.number + 1)).2
        offset := (job.cursor (t.number + 1)).1
        parts := t.parts + 1
        inflight := t.inflight ++ [job.part t.number] } := by
  have len_ne : t.len ≠ 0 := by
    intro zero
    exact more.ne ((smooth.len_eq_zero_iff full).mp zero)
  have read : ¬ (job.partRead t.number).1 < 0 :=
    not_lt.mpr (full.submits more t.number (Nat.lt_succ_self _)).2
  have counted : t.parts + 1 ≠ 0 := by
    rw [smooth.parts (smooth.zero_of_lt early more)]
    omega
  rw [Job.sendPart_eq len_ne smooth.place, if_neg read, if_neg counted]

theorem sender : job.Smooth (senderMove job.file job.env t) := by
  have signals := smooth.signals
  unfold senderMove
  cases pc : t.pc with
  | sending =>
      dsimp only
      rcases smooth.number.lt_or_eq with more | all
      · have zero := smooth.zero_of_lt early more
        rw [smooth.sendPart_eq full early more]
        refine ⟨more, rfl, ?_, smooth.status, ?_, signals, fun moved => absurd pc moved⟩
        · have handed := smooth.handed
          simp only [Transfer.handed] at handed ⊢
          rw [← List.append_assoc, handed, List.range_succ, List.map_append]
          rfl
        · intro _
          simp [smooth.parts zero]
      · rw [pc] at signals
        rw [sendPart, if_pos ((smooth.len_eq_zero_iff full).mpr all)]
        exact { smooth with signals := signals, left := fun _ => all }
  | waiting =>
      have all := smooth.left (by simp [pc])
      rw [pc] at signals
      dsimp only
      unfold waitForCompletion
      by_cases unsignalled : t.done = 0
      · rw [if_pos unsignalled]
        exact smooth
      · rw [if_neg unsignalled]
        refine { smooth with signals := ?_, left := fun _ => all }
        rw [← signals]
        exact Nat.sub_add_cancel (Nat.pos_of_ne_zero unsignalled)
  | crcCheck =>
      have all := smooth.left (by simp [pc])
      rw [pc] at signals
      dsimp only
      unfold crcCheck
      split
      · exact { smooth with signals := signals, left := fun _ => all }
      · exact { smooth with signals := signals, left := fun _ => all }
  | startup =>
      have all := smooth.left (by simp [pc])
      rw [pc] at signals
      dsimp only
      unfold startup
      split
      · exact { smooth with signals := signals, left := fun _ => all }
      · exact { smooth with signals := signals, left := fun _ => all }
  | returned retval => exact smooth

theorem move (who : Move) : job.Smooth (job.move t who) := by
  cases who with
  | sender => exact smooth.sender full early
  | callback => exact smooth.callback

theorem run (schedule : List Move) : job.Smooth (schedule.foldl job.move t) :=
  Transition.foldl_invariant job.move job.Smooth
    (fun _ who smooth => smooth.move full early who) smooth schedule

/-- Every move of the sender hands over a part, until it has left the loop. -/
theorem number_run (schedule : List Move) :
    (schedule.foldl job.move t).pc ≠ .sending ∨
      t.number + schedule.count .sender ≤ (schedule.foldl job.move t).number := by
  induction schedule generalizing t with
  | nil => exact Or.inr le_rfl
  | cons who rest ih =>
      have onward := ih (smooth.move full early who)
      by_cases sending : t.pc = .sending
      · cases who with
        | sender =>
            have moved : job.move t .sender = sendPart job.file job.env t := by
              simp [Job.move, Configure.move, senderMove, sending]
            rcases smooth.number.lt_or_eq with more | all
            · rcases onward with left | further
              · exact Or.inl left
              · have number_eq : (job.move t .sender).number = t.number + 1 := by
                  rw [moved, smooth.sendPart_eq full early more]
                right
                rw [List.foldl_cons, List.count_cons_self]
                omega
            · have waiting : (job.move t .sender).pc ≠ .sending := by
                rw [moved, sendPart, if_pos ((smooth.len_eq_zero_iff full).mpr all)]
                exact Pc.noConfusion
              exact Or.inl (left_foldl waiting rest)
        | callback =>
            rcases onward with left | further
            · exact Or.inl left
            · have number_eq : (job.move t .callback).number = t.number := by
                change (spiTransferCompleted job.env t).number = t.number
                unfold spiTransferCompleted
                split <;> rfl
              right
              rw [List.foldl_cons, List.count_cons_of_ne (by decide), ← number_eq]
              exact further
      · exact Or.inl (left_foldl (left_move sending who) rest)

/-- After one move more than there are parts the loop has been left. -/
theorem left_run {schedule : List Move} (enough : job.count < t.number + schedule.count .sender) :
    (schedule.foldl job.move t).pc ≠ .sending := by
  rcases smooth.number_run full early schedule with left | further
  · exact left
  · have bound := (smooth.run full early schedule).number
    exact absurd (enough.trans_le further) (not_lt.mpr bound)

/-! ## The last part -/

/-- As long as messages are in flight or to be sent, nobody has signalled. -/
theorem silent (unsettled : ¬ (t.number = job.count ∧ t.inflight = [])) :
    (t.completed.map Prod.fst).filter (fun p => job.Signals p) = [] := by
  rw [List.filter_eq_nil_iff]
  intro p member
  obtain ⟨entry, listed, rfl⟩ := List.mem_map.mp member
  obtain ⟨k, lt, same⟩ := smooth.exists_part listed
  have before : k + 1 < job.count := by
    apply lt_of_le_of_ne (Nat.succ_le_of_lt (lt.trans_le smooth.number))
    intro final
    exact unsettled (smooth.settled_of_final final.symm listed same)
  rw [same]
  simpa using full.not_signals early before

/-- Once all messages have completed, the completion has been signalled once if the
final part does so. -/
theorem signalled (all : t.number = job.count) (settled : t.inflight = []) :
    ((t.completed.map Prod.fst).filter fun p => job.Signals p).length =
      if job.Ends then 1 else 0 := by
  have handed := smooth.handed
  rw [Transfer.handed, settled, List.append_nil, all] at handed
  rw [handed]
  cases final : job.count with
  | zero =>
      have nothing : ¬ job.Ends := by
        have empty : job.len.toNat = 0 := by
          have none_sent := @Job.sent_count job
          rw [final] at none_sent
          exact none_sent.symm.trans (by simp [Job.sent])
        have zero : job.len = 0 := UInt32.toNat_inj.mp empty
        simp [Job.Ends, zero]
      rw [if_neg nothing]
      rfl
  | succ n =>
      have front_silent : ((List.range n).map job.part).filter (fun p => job.Signals p) = [] := by
        rw [List.filter_eq_nil_iff]
        intro p member
        obtain ⟨k, lt, rfl⟩ := List.mem_map.mp member
        have before : k + 1 < job.count := by
          rw [final]
          exact Nat.succ_lt_succ (List.mem_range.mp lt)
        simpa using full.not_signals early before
      rw [List.range_succ, List.map_append, List.filter_append, front_silent]
      by_cases ends : job.Ends
      · simp [ends, (full.signals_final_iff final).mpr ends]
      · simp [ends, mt (full.signals_final_iff final).mp ends]

/-- A sender that has got past its wait has been signalled by its own final part,
if nobody had signalled before. -/
theorem ended_of_waited (unsignalled : job.env.staleDone = 0)
    (waited : t.pc.waited = 1) : job.Ends ∧ t.inflight = [] ∧ t.done = 0 := by
  have signals := smooth.signals
  rw [unsignalled, waited] at signals
  by_cases settled : t.number = job.count ∧ t.inflight = []
  · rw [smooth.signalled full early settled.1 settled.2] at signals
    by_cases ends : job.Ends
    · rw [if_pos ends] at signals
      exact ⟨ends, settled.2, by omega⟩
    · rw [if_neg ends] at signals
      omega
  · rw [smooth.silent full early settled] at signals
    simp at signals

/-- Once all messages have completed, the completion has been signalled once. -/
theorem signalled_once (ends : job.Ends) (moved : t.pc ≠ .sending)
    (settled : t.inflight = []) : t.done + t.pc.waited = job.env.staleDone + 1 := by
  rw [smooth.signals, smooth.signalled full early (smooth.left moved) settled, if_pos ends]

/-- From wherever the call has got to, it can come to its end. -/
theorem exists_returned (ends : job.Ends) :
    ∃ (more : List Move) (retval : ℤ), (more.foldl job.move t).pc = .returned retval := by
  -- All parts are sent, then all callbacks run, then the sender finishes.
  generalize sent_eq : (List.replicate (job.count + 1) Move.sender).foldl job.move t = sent
  have sent_smooth : job.Smooth sent := sent_eq ▸ smooth.run full early _
  have moved : sent.pc ≠ .sending := by
    rw [← sent_eq]
    apply smooth.left_run full early
    rw [List.count_replicate_self]
    omega
  obtain ⟨settled, pc_eq⟩ := @drained job sent _ (le_refl sent.inflight.length)
  generalize done_eq : (List.replicate sent.inflight.length Move.callback).foldl job.move sent =
    drained at settled pc_eq
  have drained_smooth : job.Smooth drained := done_eq ▸ sent_smooth.run full early _
  rw [← pc_eq] at moved
  have once := drained_smooth.signalled_once full early ends moved settled
  obtain ⟨retval, returned⟩ := @returns job drained moved (by
    intro waiting
    rw [waiting] at once
    change drained.done + 0 = _ at once
    omega)
  refine ⟨List.replicate (job.count + 1) .sender ++
    List.replicate sent.inflight.length .callback ++ List.replicate 3 .sender, retval, ?_⟩
  rw [List.foldl_append, List.foldl_append, sent_eq, done_eq]
  exact returned

end Job.Smooth

/-- The parts of a payload that ends inside a page. -/
theorem Job.ReadsInFull.parts_eq (full : job.ReadsInFull)
    (short : job.len.toNat % PAGE_SIZE ≠ 0) :
    ∃ front final, (List.range job.count).map job.part = front ++ [final] ∧
      final.last = true ∧ ∀ p ∈ front, p.last = false := by
  obtain ⟨n, count_eq⟩ : ∃ n, job.count = n + 1 := by
    apply Nat.exists_eq_succ_of_ne_zero
    unfold Job.count PAGE_SIZE at *
    omega
  refine ⟨(List.range n).map job.part, job.part n, ?_, ?_, ?_⟩
  · rw [count_eq, List.range_succ, List.map_append, List.map_singleton]
  · exact (full.last_part_iff (count_eq ▸ Nat.lt_succ_self n)).mpr ⟨count_eq.symm, short⟩
  · intro p member
    obtain ⟨k, lt, rfl⟩ := List.mem_map.mp member
    have before := List.mem_range.mp lt
    rw [← Bool.not_eq_true, full.last_part_iff (before.trans (count_eq ▸ Nat.lt_succ_self n))]
    rintro ⟨final, -⟩
    omega

/-- If nobody signals the completion, the call does not return. -/
theorem blocks_of_not_ends (full : job.ReadsInFull) (early : job.EarlySucceed)
    (endless : ¬ job.Ends) (unsignalled : job.env.staleDone = 0) (schedule : List Move) :
    (schedule.foldl job.move (Transfer.start job.env job.offset job.len)).pc.result = none := by
  have smooth := smooth_start.run full early schedule
  generalize schedule.foldl job.move (Transfer.start job.env job.offset job.len) = t at smooth ⊢
  cases pc : t.pc with
  | sending | waiting | crcCheck | startup => rfl
  | returned retval =>
      have waited : t.pc.waited = 1 := by
        rw [pc]
        rfl
      exact absurd (smooth.ended_of_waited full early unsignalled waited).1 endless

end Smooth

/-! ## The calls -/

section Calls

variable {addr : HwrAddr} {file : File} {offset len : UInt32} {env : ConfigEnv}

theorem rhinoConfigure_started (begins : started addr env = true) (schedule : List Move) :
    (rhinoConfigure addr file offset len env schedule).2 =
      schedule.foldl (Job.move ⟨file, env, offset, len⟩) (Transfer.start env offset len) := by
  rw [rhinoConfigure, if_pos begins]
  rfl

theorem result_rhinoConfigure_started (begins : started addr env = true)
    (schedule : List Move) :
    (rhinoConfigure addr file offset len env schedule).1 =
      (schedule.foldl (Job.move ⟨file, env, offset, len⟩)
        (Transfer.start env offset len)).pc.result := by
  rw [rhinoConfigure, if_pos begins]
  rfl

theorem smooth_rhinoConfigure (full : Job.ReadsInFull ⟨file, env, offset, len⟩)
    (early : Job.EarlySucceed ⟨file, env, offset, len⟩) (schedule : List Move) :
    Job.Smooth ⟨file, env, offset, len⟩ (rhinoConfigure addr file offset len env schedule).2 := by
  by_cases begins : started addr env = true
  · rw [rhinoConfigure_started begins]
    exact smooth_start.run full early schedule
  · rw [rhinoConfigure, if_neg begins]
    exact smooth_start

end Calls

/-- Below 4 GiB the parts are the payload in order, each of at most a page, and
the loop ends after as many turns as there are parts. -/
theorem rhinoConfigure_sends_payload (addr : HwrAddr) (file : File) (offset len : UInt32)
    (env : ConfigEnv) (full : Job.ReadsInFull ⟨file, env, offset, len⟩)
    (succeeds : Job.Succeeds ⟨file, env, offset, len⟩)
    (low : offset.toNat + len.toNat ≤ 2 ^ 32) (schedule : List Move) :
    let t := (rhinoConfigure addr file offset len env schedule).2
    (∀ p ∈ t.handed, 1 ≤ p.data.length ∧ p.data.length ≤ 4096) ∧
      (t.handed.map Part.data).flatten =
        slice offset.toNat (len.toNat - t.len.toNat) file ∧
      (t.pc ≠ .sending → (t.handed.map Part.data).flatten =
        slice offset.toNat len.toNat file) ∧
      (started addr env = true →
        Job.count ⟨file, env, offset, len⟩ < schedule.count .sender → t.pc ≠ .sending) := by
  intro t
  have smooth : Job.Smooth ⟨file, env, offset, len⟩ t :=
    smooth_rhinoConfigure full succeeds.early schedule
  have front := full.flatten_parts low smooth.number
  rw [← smooth.handed] at front
  refine ⟨?_, ?_, ?_, ?_⟩
  · intro p member
    rw [smooth.handed] at member
    obtain ⟨k, lt, rfl⟩ := List.mem_map.mp member
    exact full.length_bounds ((List.mem_range.mp lt).trans_le smooth.number)
  · have len_eq : t.len = (Job.cursor ⟨file, env, offset, len⟩ t.number).2 :=
      congrArg Prod.snd smooth.place
    have sent_eq := Nat.sub_sub_self (@Job.sent_le ⟨file, env, offset, len⟩ t.number)
    rw [front, len_eq, full.cursor smooth.number, Job.toNat_len_sub_sent]
    exact congrArg (slice offset.toNat · file) sent_eq.symm
  · intro moved
    rw [front, smooth.left moved, Job.sent_count]
  · intro begins enough
    have left : (schedule.foldl (Job.move ⟨file, env, offset, len⟩)
        (Transfer.start env offset len)).pc ≠ .sending :=
      smooth_start.left_run full succeeds.early ((Nat.zero_add _).symm ▸ enough)
    rw [← rhinoConfigure_started begins] at left
    exact left

/-- A board on which everything succeeds. -/
def calmConfig : ConfigEnv where
  spiDevice := true
  interrupted := false
  readyInitB := fun _ => true
  readIo := fun _ => .upTo MAX_RW_COUNT
  status := fun _ => 0
  crcInitB := true
  done := fun _ => true
  staleDone := 0

theorem calmConfig_started : started ⟨HAC_RHINO, 0⟩ calmConfig = true := rfl

theorem calmConfig_succeeds (file : File) (offset len : UInt32) :
    Job.Succeeds ⟨file, calmConfig, offset, len⟩ := fun _ _ => rfl

/-- Two bytes from the middle of a file of four. -/
theorem rhinoConfigure_sends_two_bytes :
    (((rhinoConfigure ⟨HAC_RHINO, 0⟩ [1, 2, 3, 4] 1 2 calmConfig
      [.sender, .callback, .sender]).2.handed.map Part.data).flatten) = [2, 3] := by
  have full : Job.ReadsInFull ⟨[1, 2, 3, 4], calmConfig, 1, 2⟩ :=
    Job.readsInFull_of_page (fun _ => rfl) (by decide) (by decide)
  exact (rhinoConfigure_sends_payload _ _ _ _ _ full (calmConfig_succeeds _ _ _) (by decide)
    _).2.2.1 (by decide)

/-- A file of more than 4 GiB: a one, and zeros. -/
def hugeFile : File := 1 :: List.replicate (2 ^ 32 + 4096) 0

theorem zero_of_mem_slice_hugeFile {offset count : ℕ} (behind : 0 < offset) {byte : UInt8}
    (mem : byte ∈ slice offset count hugeFile) : byte = 0 := by
  obtain ⟨n, rfl⟩ := Nat.exists_eq_succ_of_ne_zero behind.ne'
  have tail : byte ∈ (List.replicate (2 ^ 32 + 4096) (0 : UInt8)).drop n :=
    List.mem_of_mem_take mem
  exact List.eq_of_mem_replicate (List.mem_of_mem_drop tail)

theorem hugeFile_readsInFull : Job.ReadsInFull ⟨hugeFile, calmConfig, 0xfffff000, 4097⟩ := by
  apply Job.readsInFull_of_inside (fun _ => rfl)
  intro k _
  have offset_lt := UInt32.toNat_lt
    ((0xfffff000 : UInt32) + UInt32.ofNat (Job.sent ⟨hugeFile, calmConfig, 0xfffff000, 4097⟩ k))
  have length_eq : hugeFile.length = 2 ^ 32 + 4096 + 1 := by
    rw [hugeFile, List.length_cons, List.length_replicate]
  have page : min PAGE_SIZE ((4097 : UInt32).toNat -
      Job.sent ⟨hugeFile, calmConfig, 0xfffff000, 4097⟩ k) ≤ 4096 := min_le_left _ _
  dsimp only
  rw [length_eq]
  omega

/-- A payload across 4 GiB: its last byte is read from the front of the file. -/
theorem payload_across_4GiB_is_misread :
    Job.ReadsInFull ⟨hugeFile, calmConfig, 0xfffff000, 4097⟩ ∧
      (0xfffff000 : UInt32).toNat + (4097 : UInt32).toNat ≤ hugeFile.length ∧
      ∃ t, (rhinoConfigure ⟨HAC_RHINO, 0⟩ hugeFile 0xfffff000 4097 calmConfig
          (List.replicate 3 .sender)).2 = t ∧ t.pc ≠ .sending ∧
        (t.handed.map Part.data).flatten ≠
          slice (0xfffff000 : UInt32).toNat (4097 : UInt32).toNat hugeFile := by
  refine ⟨hugeFile_readsInFull, ?_, _, rfl, ?_⟩
  · rw [hugeFile, List.length_cons, List.length_replicate]
    decide
  rw [rhinoConfigure_started calmConfig_started]
  have left : ((List.replicate 3 Move.sender).foldl
      (Job.move ⟨hugeFile, calmConfig, 0xfffff000, 4097⟩)
      (Transfer.start calmConfig 0xfffff000 4097)).pc ≠ .sending :=
    smooth_start.left_run hugeFile_readsInFull (calmConfig_succeeds _ _ _).early (by decide)
  refine ⟨left, ?_⟩
  have smooth := smooth_start.run hugeFile_readsInFull (calmConfig_succeeds _ _ _).early
    (List.replicate 3 .sender)
  rw [smooth.handed_of_left left]
  -- The second part is the byte in front of the zeros.
  have second : (Job.part ⟨hugeFile, calmConfig, 0xfffff000, 4097⟩ 1).data = [1] :=
    hugeFile_readsInFull.data_part (by decide)
  intro same
  have member : (1 : UInt8) ∈ slice (0xfffff000 : UInt32).toNat (4097 : UInt32).toNat hugeFile := by
    rw [← same, List.mem_flatten]
    refine ⟨[1], ?_, List.mem_singleton_self 1⟩
    rw [← second]
    exact List.mem_map_of_mem (List.mem_map_of_mem (List.mem_range.mpr (by decide)))
  exact absurd (zero_of_mem_slice_hugeFile (by decide) member) (by decide)

/-- The last part of a payload is marked as such, and so the call ends, exactly if
it does not fill its page. -/
theorem rhinoConfigure_ends_once_iff (addr : HwrAddr) (file : File) (offset len : UInt32)
    (env : ConfigEnv) (begins : started addr env = true)
    (full : Job.ReadsInFull ⟨file, env, offset, len⟩)
    (succeeds : Job.Succeeds ⟨file, env, offset, len⟩) :
    (∀ schedule,
      let t := (rhinoConfigure addr file offset len env schedule).2
      (t.pc ≠ .sending → ∃ front final, t.handed = front ++ [final] ∧ final.last = true ∧
        ∀ p ∈ front, p.last = false) ∧
      (t.pc ≠ .sending → t.inflight = [] → t.done + t.pc.waited = env.staleDone + 1) ∧
      ∃ more retval, (rhinoConfigure addr file offset len env (schedule ++ more)).1 =
        some retval) ↔
      len.toNat % 4096 ≠ 0 := by
  constructor
  · intro ends pages
    have left : ((List.replicate (Job.count ⟨file, env, offset, len⟩ + 1) Move.sender).foldl
        (Job.move ⟨file, env, offset, len⟩) (Transfer.start env offset len)).pc ≠ .sending := by
      apply smooth_start.left_run full succeeds.early
      rw [List.count_replicate_self]
      exact (Nat.zero_add _).symm ▸ Nat.lt_succ_self _
    obtain ⟨parts, -, -⟩ := ends (List.replicate (Job.count ⟨file, env, offset, len⟩ + 1) .sender)
    rw [rhinoConfigure_started begins] at parts
    obtain ⟨front, final, handed, last, -⟩ := parts left
    have smooth := smooth_start.run full succeeds.early
      (List.replicate (Job.count ⟨file, env, offset, len⟩ + 1) .sender)
    have member : final ∈ (List.range (Job.count ⟨file, env, offset, len⟩)).map
        (Job.part ⟨file, env, offset, len⟩) := by
      rw [← smooth.handed_of_left left]
      exact handed ▸ List.mem_append_right _ (List.mem_singleton_self _)
    obtain ⟨k, lt, rfl⟩ := List.mem_map.mp member
    exact ((full.last_part_iff (List.mem_range.mp lt)).mp last).2 pages
  · intro short schedule t
    have smooth : Job.Smooth ⟨file, env, offset, len⟩ t :=
      smooth_rhinoConfigure full succeeds.early schedule
    refine ⟨?_, smooth.signalled_once full succeeds.early (Or.inl short), ?_⟩
    · intro moved
      rw [smooth.handed_of_left moved]
      exact full.parts_eq short
    · obtain ⟨more, retval, returned⟩ := smooth.exists_returned full succeeds.early (Or.inl short)
      refine ⟨more, retval, ?_⟩
      rw [result_rhinoConfigure_started begins, List.foldl_append,
        ← rhinoConfigure_started begins, Pc.result_eq_some_iff]
      exact returned

theorem oneByte_readsInFull : Job.ReadsInFull ⟨[0xaa], calmConfig, 0, 1⟩ :=
  Job.readsInFull_of_page (fun _ => rfl) (by decide) (by decide)

/-- One byte is sent and the call ends. -/
theorem rhinoConfigure_ends_after_one_byte :
    ∃ more retval, (rhinoConfigure ⟨HAC_RHINO, 0⟩ [0xaa] 0 1 calmConfig more).1 =
      some retval :=
  ((rhinoConfigure_ends_once_iff _ _ _ _ _ calmConfig_started oneByte_readsInFull
    (calmConfig_succeeds _ _ _)).mpr (by decide) []).2.2

/-- A payload of exactly one page: its part is not marked as the last one, and the
call never returns. -/
theorem one_page_never_ends :
    Job.ReadsInFull ⟨List.replicate 4096 0, calmConfig, 0, 4096⟩ ∧
      (Job.part ⟨List.replicate 4096 0, calmConfig, 0, 4096⟩ 0).last = false ∧
      ∀ schedule, (rhinoConfigure ⟨HAC_RHINO, 0⟩ (List.replicate 4096 0) 0 4096 calmConfig
        schedule).1 = none := by
  have full : Job.ReadsInFull ⟨List.replicate 4096 0, calmConfig, 0, 4096⟩ := by
    apply Job.readsInFull_of_page (fun _ => rfl) (by decide)
    rw [List.length_replicate]
    decide
  refine ⟨full, ?_, ?_⟩
  · rw [← Bool.not_eq_true, full.last_part_iff (by decide)]
    decide
  · intro schedule
    rw [result_rhinoConfigure_started calmConfig_started]
    apply blocks_of_not_ends full (calmConfig_succeeds _ _ _).early _ rfl
    rintro (short | ⟨-, failed⟩)
    · exact short rfl
    · exact failed rfl

end Rhino.Hwr.Configure
