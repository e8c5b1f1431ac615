import Rhino.Hwr.Configure.Payload
import Rhino.Hwr.Configure.Chunks

/-!
# The loops of rhino_configure

`rhino_configure` polls INIT_B before it sends, sends the payload part by part, and
polls DONE at the end.  The poll of INIT_B uses all the samples that its bound allows;
the poll of DONE gives up at the first one that is low.

The sending loop counts `len` down by what each read has delivered.  A read at the end
of the file delivers nothing and is no error, so a payload that runs past it is waited
for.
-/

namespace Rhino.Hwr.Configure

open Rhino.Bof Rhino.Bytes Rhino.Kernel

/-! ## Polling -/

/-- The poll of INIT_B looks at the samples one after another. -/
theorem pollInitB_eq_true_iff {samples : ℕ → Bool} {i n : ℕ} :
    pollInitB samples i n = true ↔ ∃ k < n, samples (i + k) = true := by
  induction n generalizing i with
  | zero => simp [pollInitB]
  | succ n ih =>
      rw [pollInitB]
      cases first : samples i with
      | true =>
          rw [if_pos rfl]
          exact iff_of_true rfl ⟨0, Nat.succ_pos n, first⟩
      | false =>
          rw [if_neg Bool.false_ne_true, ih]
          constructor
          · rintro ⟨k, lt, high⟩
            exact ⟨k + 1, Nat.succ_lt_succ lt, by rwa [Nat.add_comm k, ← Nat.add_assoc]⟩
          · rintro ⟨k, lt, high⟩
            cases k with
            | zero =>
                rw [Nat.add_zero, first] at high
                contradiction
            | succ k =>
                exact ⟨k, Nat.lt_of_succ_lt_succ lt, by rwa [Nat.add_assoc, Nat.add_comm 1]⟩

/-- The poll of DONE looks at one sample. -/
theorem pollDone_succ (samples : ℕ → Bool) (i n : ℕ) : pollDone samples i (n + 1) = samples i := by
  rw [pollDone]
  cases samples i with
  | true => rfl
  | false => rfl

/-- Both polls find the level that they wait for if it comes within their bounds, and
take the error exit otherwise: the one for INIT_B before anything is sent, the one for
DONE with `retval` as it is. -/
structure PinsPolled (addr : HwrAddr) (file : File) (offset len : UInt32) (env : ConfigEnv) :
    Prop where
  loads : entered addr env = true → (∃ i ≤ CFG_INITB_WAIT, env.readyInitB i = true) →
    ∀ schedule, (rhinoConfigure addr file offset len env schedule).2 =
      schedule.foldl (move file env) (Transfer.start env offset len)
  refuses : entered addr env = true → (∀ i ≤ CFG_INITB_WAIT, env.readyInitB i = false) →
    ∀ schedule, rhinoConfigure addr file offset len env schedule =
      (some (-eio), Transfer.start env offset len)
  finishes : (∃ i ≤ CFG_DONE_WAIT, env.done i = true) → ∀ t : Transfer, t.pc = .startup →
    senderMove file env t = { t with pc := .returned 0, retval := 0 }
  fails : (∀ i ≤ CFG_DONE_WAIT, env.done i = false) → ∀ t : Transfer, t.pc = .startup →
    senderMove file env t = { t with pc := .returned t.retval }

section Polls

variable {addr : HwrAddr} {file : File} {offset len : UInt32} {env : ConfigEnv}

theorem started_iff (enters : entered addr env = true) :
    started addr env = true ↔ ∃ i ≤ CFG_INITB_WAIT, env.readyInitB i = true := by
  simp only [started, enters, Bool.true_and, pollInitB_eq_true_iff, Nat.zero_add, Nat.lt_succ_iff]

theorem senderMove_startup {t : Transfer} (pc : t.pc = .startup) :
    senderMove file env t = if env.done 0 = true then { t with pc := .returned 0, retval := 0 }
      else { t with pc := .returned t.retval } := by
  simp only [senderMove, pc, startup, pollDone_succ]

theorem rhinoConfigure_refused (refused : ∀ i ≤ CFG_INITB_WAIT, env.readyInitB i = false)
    (enters : entered addr env = true) (schedule : List Move) :
    rhinoConfigure addr file offset len env schedule =
      (some (-eio), Transfer.start env offset len) := by
  have low : ¬ started addr env = true := by
    rw [started_iff enters]
    rintro ⟨i, le, high⟩
    rw [refused i le] at high
    contradiction
  rw [rhinoConfigure, if_neg low]

end Polls

/-- The pins are polled as they should be exactly if DONE is high at the first sample or
at none that the bound allows. -/
theorem pins_polled_iff (addr : HwrAddr) (file : File) (offset len : UInt32) (env : ConfigEnv) :
    PinsPolled addr file offset len env ↔
      (env.done 0 = true ∨ ∀ i ≤ CFG_DONE_WAIT, env.done i = false) := by
  constructor
  · intro polled
    by_contra late
    rw [not_or, not_forall] at late
    obtain ⟨low, i, high⟩ := late
    rw [Classical.not_imp, Bool.not_eq_false] at high
    -- A transfer whose `retval` is not zero tells the two exits apart.
    let t : Transfer := { Transfer.start env offset len with pc := .startup }
    have finished := polled.finishes ⟨i, high⟩ t rfl
    rw [senderMove_startup rfl, if_neg low] at finished
    have same : -eio = 0 := congrArg Transfer.retval finished
    exact absurd same neg_eio_lt_zero.ne
  · intro early
    constructor
    · intro enters high schedule
      exact rhinoConfigure_started ((started_iff enters).mpr high) schedule
    · intro enters low schedule
      exact rhinoConfigure_refused low enters schedule
    · rintro ⟨i, le, high⟩ t pc
      rw [senderMove_startup pc]
      rcases early with first | never
      · rw [if_pos first]
      · rw [never i le] at high
        contradiction
    · intro low t pc
      rw [senderMove_startup pc, low 0 (Nat.zero_le _), if_neg Bool.false_ne_true]

/-- A board whose DONE goes high at the second sample. -/
def slowStart : ConfigEnv :=
  { calmConfig with done := fun i => i ≠ 0 }

/-- One byte is sent without a fault, and the call returns the byte count instead of
zero. -/
theorem slow_start_takes_error_exit :
    (∃ i ≤ CFG_DONE_WAIT, slowStart.done i = true) ∧
      (rhinoConfigure ⟨HAC_RHINO, 0⟩ [0xaa] 0 1 slowStart
        [.sender, .callback, .sender, .sender, .sender, .sender]).1 = some 1 ∧
      ¬ PinsPolled ⟨HAC_RHINO, 0⟩ [0xaa] 0 1 slowStart := by
  have high : ∃ i ≤ CFG_DONE_WAIT, slowStart.done i = true := ⟨1, by decide, rfl⟩
  refine ⟨high, rfl, ?_⟩
  intro polled
  have finished := polled.finishes high
    { Transfer.start slowStart 0 1 with pc := .startup } rfl
  have same : -eio = 0 := congrArg Transfer.retval finished
  exact absurd same neg_eio_lt_zero.ne

/-! ## Sending -/

namespace Job

variable {job : Job} {t : Transfer}

/-- As long as the sender is in its loop, it has made one read with every move, none of
them has failed, and there was something left to read. -/
structure InLoop (job : Job) (moves : ℕ) (t : Transfer) : Prop where
  number : t.number = moves
  place : (t.offset, t.len) = job.cursor moves
  submits : job.Submits moves

theorem inLoop_sender {moves : ℕ} (inv : t.pc = .sending → job.InLoop moves t)
    (sending : (job.move t .sender).pc = .sending) :
    job.InLoop (moves + 1) (job.move t .sender) := by
  cases pc : t.pc with
  | sending =>
      have inLoop := inv pc
      have place : (t.offset, t.len) = job.cursor t.number := by
        rw [inLoop.number]
        exact inLoop.place
      have moved : job.move t .sender = Configure.sendPart job.file job.env t :=
        move_sender_of_sending pc
      rw [moved] at sending ⊢
      by_cases sent : t.len = 0
      · rw [Configure.sendPart, if_pos sent] at sending
        contradiction
      have more : (job.cursor moves).2 ≠ 0 := by
        rw [← inLoop.place]
        exact sent
      rw [sendPart_eq sent place] at sending ⊢
      by_cases failed : (job.partRead t.number).1 < 0
      · rw [if_pos failed] at sending
        contradiction
      rw [if_neg failed] at sending ⊢
      by_cases stopped : t.parts + 1 = 0
      · rw [if_pos stopped] at sending
        contradiction
      rw [if_neg stopped]
      rw [inLoop.number] at failed
      refine ⟨congrArg (· + 1) inLoop.number, ?_, inLoop.submits.succ more (not_lt.mp failed)⟩
      rw [inLoop.number]
  | waiting | crcCheck | startup | returned retval =>
      have moved : t.pc ≠ .sending := by rw [pc]; exact Pc.noConfusion
      exact absurd sending (Smooth.left_move moved .sender)

theorem inLoop_callback {moves : ℕ} (inv : t.pc = .sending → job.InLoop moves t)
    (sending : (job.move t .callback).pc = .sending) : job.InLoop moves (job.move t .callback) := by
  change (spiTransferCompleted job.env t).pc = .sending at sending
  change job.InLoop moves (spiTransferCompleted job.env t)
  unfold spiTransferCompleted at sending ⊢
  cases queue : t.inflight with
  | nil =>
      rw [queue] at sending
      exact inv sending
  | cons part rest =>
      rw [queue] at sending
      have inLoop := inv sending
      exact ⟨inLoop.number, inLoop.place, inLoop.submits⟩

/-- A sender that is in its loop after some moves has submitted as many parts. -/
theorem inLoop_run {moves : ℕ} (inv : t.pc = .sending → job.InLoop moves t) (schedule : List Move)
    (sending : (schedule.foldl job.move t).pc = .sending) :
    job.Submits (moves + schedule.count .sender) := by
  induction schedule generalizing t moves with
  | nil => exact (inv sending).submits
  | cons who rest ih =>
      cases who with
      | sender =>
          rw [List.count_cons_self, Nat.add_comm _ 1, ← Nat.add_assoc]
          exact ih (inLoop_sender inv) sending
      | callback =>
          rw [List.count_cons_of_ne (by decide)]
          exact ih (inLoop_callback inv) sending

/-- However the callbacks run, the sender leaves its loop within a bound. -/
def SendingEnds (job : Job) : Prop :=
  ∃ bound, ∀ schedule : List Move, bound < schedule.count .sender →
    (schedule.foldl job.move (Transfer.start job.env job.offset job.len)).pc ≠ .sending

theorem sendingEnds_iff : job.SendingEnds ↔ ∃ k, ¬ job.Submits k := by
  constructor
  · rintro ⟨bound, ends⟩
    refine ⟨bound + 1, fun submits => ends (List.replicate (bound + 1) .sender) ?_ ?_⟩
    · rw [List.count_replicate_self]
      exact Nat.lt_succ_self bound
    · rw [foldl_sender_eq_submitted submits]
      rfl
  · rintro ⟨k, stops⟩
    refine ⟨k, fun schedule enough sending => stops ?_⟩
    have initial (_ : (Transfer.start job.env job.offset job.len).pc = .sending) :
        job.InLoop 0 (Transfer.start job.env job.offset job.len) :=
      ⟨rfl, rfl, fun i none => absurd none (Nat.not_lt_zero i)⟩
    have submits := inLoop_run initial schedule sending
    exact submits.mono (by omega)

/-- The end of the payload is found: it lies in the file, or the offset wraps around
before the end of the file, or a read fails. -/
def EndFound (job : Job) : Prop :=
  Inside job.file job.offset.toNat job.len.toNat ∨ 2 ^ 32 ≤ job.file.length ∨
    ∃ k, (job.env.readIo (k + 1)).fails = true

/-- No read asks for more than a page. -/
theorem count_small (k : ℕ) : ¬ 2 ^ 31 ≤ min PAGE_SIZE (job.cursor k).2.toNat := by
  rw [PAGE_SIZE]
  omega

theorem partRead_neg_iff (k : ℕ) :
    (job.partRead k).1 < 0 ↔ (job.env.readIo (k + 1)).fails = true := by
  rw [partRead, readPart, kernelRead_neg_iff, or_iff_right (count_small k)]

/-- Without an end the loop submits part after part. -/
theorem submits_of_endless (endless : ¬ job.EndFound) (k : ℕ) : job.Submits k := by
  simp only [EndFound, not_or, not_le, not_exists] at endless
  obtain ⟨outside, small, readable⟩ := endless
  intro i _
  constructor
  · intro zero
    rcases job.cursor_inside small i with ⟨n, le, inside, cursor_eq⟩
    have left : (job.cursor i).2.toNat = job.len.toNat - n := by
      rw [cursor_eq]
      exact toNat_sub_ofNat le
    rw [zero] at left
    have whole : n = job.len.toNat := le_antisymm le (Nat.sub_eq_zero_iff_le.mp left.symm)
    exact outside (whole ▸ inside)
  · rw [← not_lt, partRead_neg_iff]
    exact readable i

/-- A read before the end of the file that does not fail delivers something. -/
theorem partRead_pos {k : ℕ} (accords : job.env.readIo (k + 1) ≠ .upTo 0)
    (read : 0 ≤ (job.partRead k).1) (more : (job.cursor k).2 ≠ 0)
    (before : (job.cursor k).1.toNat < job.file.length) : 0 < (job.partRead k).2.length := by
  have left : 0 < (job.cursor k).2.toNat := by
    rw [Nat.pos_iff_ne_zero]
    exact fun zero => more (UInt32.toNat_inj.mp zero)
  cases io : job.env.readIo (k + 1) with
  | error errno =>
      rw [← not_lt, partRead_neg_iff, io] at read
      exact absurd rfl read
  | upTo limit =>
      have positive : 0 < limit := by
        rw [Nat.pos_iff_ne_zero]
        rintro rfl
        exact accords io
      simp only [partRead, readPart, kernelRead, io, if_neg (count_small k), List.length_take,
        slice_length]
      rw [PAGE_SIZE, MAX_RW_COUNT]
      omega

/-- Where the end is found, every part brings the loop nearer to it. -/
theorem cursor_add_le (accords : ∀ number, job.env.readIo number ≠ .upTo 0)
    (found : Inside job.file job.offset.toNat job.len.toNat ∨ 2 ^ 32 ≤ job.file.length) {k : ℕ}
    (submits : job.Submits k) : (job.cursor k).2.toNat + k ≤ job.len.toNat := by
  induction k with
  | zero => exact le_rfl
  | succ k ih =>
      have bound := ih (submits.mono (Nat.le_succ k))
      obtain ⟨more, read⟩ := submits k (Nat.lt_succ_self k)
      have before : (job.cursor k).1.toNat < job.file.length := by
        by_cases large : 2 ^ 32 ≤ job.file.length
        · exact (job.cursor k).1.toNat_lt.trans_le large
        · have whole := or_iff_left large |>.mp found
          rcases job.cursor_inside (not_le.mp large) k with ⟨n, le, -, cursor_eq⟩
          have left : n < job.len.toNat := by
            apply lt_of_le_of_ne le
            rintro rfl
            rw [cursor_eq, UInt32.ofNat_toNat, UInt32.sub_self] at more
            exact more rfl
          have inside := whole n left
          have len_lt := job.len.toNat_lt
          rw [cursor_eq, UInt32.toNat_add, UInt32.toNat_ofNat']
          omega
      have delivered := partRead_pos (accords (k + 1)) read more before
      have most := job.partRead_length_le k
      have next : (job.cursor (k + 1)).2.toNat =
          (job.cursor k).2.toNat - (job.partRead k).2.length := toNat_sub_ofNat most
      omega

/-- If no callback fails either, no schedule gets the sender out of its loop. -/
theorem sending_of_endless (endless : ¬ job.EndFound)
    (quiet : ∀ number, job.env.status number = 0) (schedule : List Move) :
    (schedule.foldl job.move (Transfer.start job.env job.offset job.len)).pc = .sending := by
  apply (Transition.foldl_invariant job.move
    (fun t => t.pc = .sending ∧ job.Undisturbed t) _ ⟨rfl, undisturbed_start⟩ schedule).1
  rintro t who ⟨pc, undisturbed⟩
  cases who with
  | sender =>
      have submits := submits_of_endless endless (t.number + 1)
      obtain ⟨more, read⟩ := submits t.number (Nat.lt_succ_self _)
      have sent : t.len ≠ 0 := by
        rw [← undisturbed.place] at more
        exact more
      have moved : job.move t .sender = _ :=
        (move_sender_of_sending pc).trans (sendPart_eq sent undisturbed.place)
      rw [if_neg (not_lt.mpr read), if_neg (undisturbed.counted submits)] at moved
      have sending : (job.move t .sender).pc = .sending := by
        rw [moved]
        exact pc
      rcases undisturbed.sender with ⟨retval, -, left⟩ | after
      · cases sending.symm.trans left
      · exact ⟨sending, after⟩
  | callback =>
      have guarded : job.Guarded [] := ⟨fun _ => rfl, fun _ _ => quiet _⟩
      refine ⟨?_, undisturbed.callback guarded⟩
      change (spiTransferCompleted job.env t).pc = .sending
      unfold spiTransferCompleted
      split <;> exact pc

end Job

/-- With reads that deliver something before the end of the file, the sending loop ends
exactly if it finds the end of the payload; and if it does not, it goes on for ever
unless a message fails. -/
theorem sending_ends_iff (job : Job) (accords : ∀ number, job.env.readIo number ≠ .upTo 0) :
    (job.SendingEnds ↔ job.EndFound) ∧
      (¬ job.EndFound → (∀ number, job.env.status number = 0) → ∀ schedule : List Move,
        (schedule.foldl job.move (Transfer.start job.env job.offset job.len)).pc = .sending) := by
  refine ⟨?_, Job.sending_of_endless⟩
  rw [Job.sendingEnds_iff]
  constructor
  · rintro ⟨k, stops⟩
    by_contra endless
    exact stops (Job.submits_of_endless endless k)
  · intro found
    by_cases fails : ∃ k, (job.env.readIo (k + 1)).fails = true
    · obtain ⟨k, failed⟩ := fails
      refine ⟨k + 1, fun submits => ?_⟩
      exact not_lt.mpr (submits k (Nat.lt_succ_self k)).2 ((Job.partRead_neg_iff k).mpr failed)
    · have reached : Inside job.file job.offset.toNat job.len.toNat ∨ 2 ^ 32 ≤ job.file.length := by
        rcases found with inside | large | failed
        · exact Or.inl inside
        · exact Or.inr large
        · exact absurd failed fails
      refine ⟨job.len.toNat + 1, fun submits => ?_⟩
      have bound := Job.cursor_add_le accords reached submits
      omega

theorem calmConfig_accords (number : ℕ) : calmConfig.readIo number ≠ .upTo 0 := by
  intro same
  exact absurd (ReadIo.upTo.inj same) (by decide)

/-- A payload of one byte that the file has. -/
theorem sending_ends_after_one_byte : Job.SendingEnds ⟨[0xaa], calmConfig, 0, 1⟩ := by
  apply (sending_ends_iff ⟨[0xaa], calmConfig, 0, 1⟩ calmConfig_accords).1.mpr
  left
  intro k lt
  obtain rfl : k = 0 := Nat.lt_one_iff.mp lt
  decide

/-- A payload of two bytes in a file of one: the second byte is waited for for ever. -/
theorem missing_byte_is_waited_for :
    (∀ number, calmConfig.readIo number ≠ .upTo 0) ∧
      (∀ schedule : List Move, (schedule.foldl (Job.move ⟨[0xaa], calmConfig, 0, 2⟩)
        (Transfer.start calmConfig 0 2)).pc = .sending) ∧
      ¬ Job.SendingEnds ⟨[0xaa], calmConfig, 0, 2⟩ := by
  have endless : ¬ Job.EndFound ⟨[0xaa], calmConfig, 0, 2⟩ := by
    rintro (inside | large | ⟨k, failed⟩)
    · exact absurd (inside 1 (by decide)) (by decide)
    · exact absurd large (by decide)
    · contradiction
  have forever := Job.sending_of_endless endless fun _ => rfl
  refine ⟨calmConfig_accords, forever, ?_⟩
  rintro ⟨bound, ends⟩
  apply ends (List.replicate (bound + 1) .sender) _ (forever _)
  rw [List.count_replicate_self]
  exact Nat.lt_succ_self bound

end Rhino.Hwr.Configure
