import Rhino.Hwr.Configure.Chunks

/-!
# One configuration after another

`configuration_data_sent` and `config_transfer_parts` are shared by all calls of
`rhino_configure`.  A call can return while messages of its own are still in
flight, and callbacks of an earlier call signal the completion that a later one
waits for.

A sequence of calls is safe under every schedule exactly if no call that is
reached has a part before its final one that fails.  The first such call lets its
own wait return too early; before it, every call leaves the completion as it has
found it.
-/

namespace Rhino.Hwr.Configure

open Rhino.Bof Rhino.Bytes Rhino.Kernel

/-- The completion is not what the caller makes it but what is left of earlier
calls. -/
def Job.withStale (job : Job) (done : ℕ) : Job :=
  { job with env := { job.env with staleDone := done } }

/-- The calls to come, the current one with its transfer, and the messages of
earlier calls that are still in flight, each with the status that it will
complete with. -/
structure Sequence where
  calls : List (HwrAddr × Job)
  job : Job
  t : Transfer
  backlog : List (Part × ℤ)

/-- The next call begins, or somebody moves. -/
inductive Event where
  | call
  | move (who : Move)
  deriving DecidableEq, Repr

namespace Sequence

/-- `rhino_mutex` is free once the current call has returned.  A call that does not
get to its sending loop leaves everything as it is. -/
def nextCall (s : Sequence) : Sequence :=
  match s.t.pc.result, s.calls with
  | some _, (addr, job) :: rest =>
      if started addr job.env then
        let job := job.withStale s.t.done
        { calls := rest
          job := job
          t := Transfer.start job.env job.offset job.len
          backlog := s.backlog ++ s.t.inflight.map fun p => (p, s.job.env.status p.number) }
      else { s with calls := rest }
  | _, _ => s

/-- The SPI core completes the messages in the order in which it got them. -/
def callback (s : Sequence) : Sequence :=
  match s.backlog with
  | [] => { s with t := spiTransferCompleted s.job.env s.t }
  | (part, status) :: rest =>
      { s with
        backlog := rest
        t := s.t.strayCompleted part status }

def step (s : Sequence) : Event → Sequence
  | .call => s.nextCall
  | .move .sender => { s with t := senderMove s.job.file s.job.env s.t }
  | .move .callback => s.callback

/-- Before the first call. -/
def start (calls : List (HwrAddr × Job)) : Sequence where
  calls := calls
  job := ⟨[], calmConfig, 0, 0⟩
  t := { Transfer.start calmConfig 0 0 with pc := .returned 0 }
  backlog := []

/-- A sender that has got past `wait_for_completion` has no message in flight: the
last one that it has submitted has completed. -/
def Paired (s : Sequence) : Prop :=
  s.t.pc = .crcCheck ∨ s.t.pc = .startup → s.t.inflight = []

end Sequence

/-- Of every call that is reached, all parts but possibly the final one succeed.  A
call is reached if all before it come to their end. -/
def Orderly : List (HwrAddr × Job) → Prop
  | [] => True
  | (addr, job) :: rest =>
      if started addr job.env then job.EarlySucceed ∧ (job.Ends → Orderly rest)
      else Orderly rest

/-! ## What the stale count does not change -/

namespace Job

variable {job : Job}

theorem cursor_withStale (done k : ℕ) : (job.withStale done).cursor k = job.cursor k := by
  induction k with
  | zero => rfl
  | succ k ih =>
      rw [cursor, cursor, ih]
      rfl

theorem ReadsInFull.withStale (full : job.ReadsInFull) (done : ℕ) :
    (job.withStale done).ReadsInFull := by
  intro k
  unfold partRead
  rw [cursor_withStale]
  exact full k

end Job

/-! ## Calls in order -/

namespace Sequence

variable {s : Sequence}

/-- No call is in progress, and nothing of the earlier ones is left. -/
structure Idle (s : Sequence) : Prop where
  returned : ∃ retval, s.t.pc = .returned retval
  inflight : s.t.inflight = []
  done : s.t.done = 0
  backlog : s.backlog = []

/-- A call is in progress, and nothing of the earlier ones is left. -/
structure Busy (s : Sequence) : Prop where
  smooth : s.job.Smooth s.t
  full : s.job.ReadsInFull
  early : s.job.EarlySucceed
  unsignalled : s.job.env.staleDone = 0
  backlog : s.backlog = []

theorem start_idle (calls : List (HwrAddr × Job)) : Idle (start calls) :=
  ⟨⟨0, rfl⟩, rfl, rfl, rfl⟩

theorem Idle.paired (idle : Idle s) : Paired s := fun _ => idle.inflight

theorem Busy.paired (busy : Busy s) : Paired s := by
  intro past
  have waited : s.t.pc.waited = 1 := by
    rcases past with pc | pc
    · rw [pc]
      rfl
    · rw [pc]
      rfl
  exact (busy.smooth.ended_of_waited busy.full busy.early busy.unsignalled waited).2.1

/-- A call that has returned was ended by its own final part, and leaves nothing
behind. -/
theorem Busy.idle (busy : Busy s) {retval : ℤ} (returned : s.t.pc = .returned retval) :
    s.job.Ends ∧ Idle s := by
  have waited : s.t.pc.waited = 1 := by
    rw [returned]
    rfl
  obtain ⟨ends, inflight, done⟩ :=
    busy.smooth.ended_of_waited busy.full busy.early busy.unsignalled waited
  exact ⟨ends, ⟨retval, returned⟩, inflight, done, busy.backlog⟩

/-- The next call of an idle sequence. -/
theorem Idle.nextCall_started (idle : Idle s) {addr : HwrAddr} {job : Job}
    {rest : List (HwrAddr × Job)} (calls : s.calls = (addr, job) :: rest)
    (begins : started addr job.env = true) :
    s.nextCall = ⟨rest, job.withStale 0,
      Transfer.start (job.withStale 0).env job.offset job.len, []⟩ := by
  obtain ⟨retval, pc⟩ := idle.returned
  simp [nextCall, pc, Pc.result, calls, begins, idle.done, idle.inflight, idle.backlog]
  rfl

theorem Idle.nextCall_refused (idle : Idle s) {addr : HwrAddr} {job : Job}
    {rest : List (HwrAddr × Job)} (calls : s.calls = (addr, job) :: rest)
    (refused : ¬ started addr job.env = true) : s.nextCall = { s with calls := rest } := by
  obtain ⟨retval, pc⟩ := idle.returned
  simp [nextCall, pc, Pc.result, calls, refused]

theorem Idle.nextCall_nil (calls : s.calls = []) : s.nextCall = s := by
  unfold nextCall
  rw [calls]
  cases s.t.pc.result <;> rfl

theorem busy_start {rest : List (HwrAddr × Job)} {job : Job} (full : job.ReadsInFull)
    (early : job.EarlySucceed) :
    Busy ⟨rest, job.withStale 0, Transfer.start (job.withStale 0).env job.offset job.len, []⟩ where
  smooth := smooth_start
  full := full.withStale 0
  early := early
  unsignalled := rfl
  backlog := rfl

/-- The invariant of an orderly sequence. -/
structure Inv (s : Sequence) : Prop where
  full : ∀ call ∈ s.calls, call.2.ReadsInFull
  now : Idle s ∧ Orderly s.calls ∨ Busy s ∧ (s.job.Ends → Orderly s.calls)

theorem Inv.paired (inv : Inv s) : Paired s := by
  rcases inv.now with ⟨idle, -⟩ | ⟨busy, -⟩
  · exact idle.paired
  · exact busy.paired

theorem inv_nextCall_of_idle (idle : Idle s) (full : ∀ call ∈ s.calls, call.2.ReadsInFull)
    (orderly : Orderly s.calls) : Inv s.nextCall := by
  cases calls : s.calls with
  | nil =>
      rw [Idle.nextCall_nil calls]
      exact ⟨full, Or.inl ⟨idle, orderly⟩⟩
  | cons call rest =>
      obtain ⟨addr, job⟩ := call
      rw [calls] at full orderly
      have full_rest : ∀ call ∈ rest, call.2.ReadsInFull :=
        fun call member => full call (List.mem_cons_of_mem _ member)
      by_cases begins : started addr job.env = true
      · rw [Orderly, if_pos begins] at orderly
        rw [idle.nextCall_started calls begins]
        exact ⟨full_rest, Or.inr ⟨busy_start (full _ List.mem_cons_self) orderly.1, orderly.2⟩⟩
      · rw [Orderly, if_neg begins] at orderly
        rw [idle.nextCall_refused calls begins]
        exact ⟨full_rest, Or.inl ⟨⟨idle.returned, idle.inflight, idle.done, idle.backlog⟩, orderly⟩⟩

/-- With nothing left of the earlier calls, a move is one of the current call. -/
theorem step_move (backlog : s.backlog = []) (who : Move) :
    s.step (.move who) = { s with t := s.job.move s.t who } := by
  cases who with
  | sender => rfl
  | callback =>
      change s.callback = _
      unfold callback
      rw [backlog]
      rfl

theorem Idle.move_eq (idle : Idle s) (who : Move) : s.job.move s.t who = s.t := by
  obtain ⟨retval, pc⟩ := idle.returned
  cases who with
  | sender => simp [Job.move, Configure.move, senderMove, pc]
  | callback => simp [Job.move, Configure.move, spiTransferCompleted, idle.inflight]

theorem Inv.step (inv : Inv s) (event : Event) : Inv (s.step event) := by
  cases event with
  | call =>
      change Inv s.nextCall
      rcases inv.now with ⟨idle, orderly⟩ | ⟨busy, onward⟩
      · exact inv_nextCall_of_idle idle inv.full orderly
      · cases pc : s.t.pc with
        | returned retval =>
            obtain ⟨ends, idle⟩ := busy.idle pc
            exact inv_nextCall_of_idle idle inv.full (onward ends)
        | sending | waiting | crcCheck | startup =>
            have same : s.nextCall = s := by simp [nextCall, pc, Pc.result]
            rw [same]
            exact inv
  | move who =>
      rcases inv.now with ⟨idle, -⟩ | ⟨busy, onward⟩
      · rw [step_move idle.backlog, idle.move_eq]
        exact inv
      · rw [step_move busy.backlog]
        refine ⟨inv.full, Or.inr ⟨{ busy with smooth := ?_ }, onward⟩⟩
        exact busy.smooth.move busy.full busy.early who

/-! ## A part that fails before the final one -/

/-- All parts are submitted, a part before the final one completes with a failure,
and the sender gets past its wait. -/
theorem unpaired_of_failed {job : Job} (full : job.ReadsInFull) {k : ℕ}
    (before : k + 1 < job.count) (failed : job.env.status (k + 1) ≠ 0) :
    ∃ t, (List.replicate job.count Move.sender ++ List.replicate (k + 1) Move.callback ++
        List.replicate 2 Move.sender).foldl job.move
          (Transfer.start job.env job.offset job.len) = t ∧
      t.pc = .crcCheck ∧ t.inflight ≠ [] := by
  obtain ⟨pc, place, -, -, inflight, -, -, signalled, -⟩ :=
    foldl_submitted_completed (full.submits le_rfl) before.le
  rw [List.foldl_append]
  generalize (List.replicate job.count Move.sender ++ List.replicate (k + 1) Move.callback).foldl
    job.move (Transfer.start job.env job.offset job.len) = t at pc place inflight signalled ⊢
  have sent : t.len = 0 := (congrArg Prod.snd place).trans full.cursor_count
  have done : t.done ≠ 0 := (signalled ⟨k, Nat.lt_succ_self k, Or.inr failed⟩).ne'
  refine ⟨_, rfl, ?_⟩
  have moved : (List.replicate 2 Move.sender).foldl job.move t =
      { t with pc := .crcCheck, done := t.done - 1 } := by
    simp [List.replicate, Job.move, Configure.move, senderMove, pc, sendPart, sent,
      waitForCompletion, done]
  rw [moved]
  refine ⟨rfl, ?_⟩
  dsimp only
  rw [inflight, Ne, List.drop_eq_nil_iff, List.length_map, List.length_range]
  exact not_le.mpr before

/-- A schedule of the current call, in the sequence. -/
theorem foldl_step_move (backlog : s.backlog = []) (schedule : List Move) :
    (schedule.map Event.move).foldl step s =
      { s with t := schedule.foldl s.job.move s.t } := by
  induction schedule generalizing s with
  | nil => rfl
  | cons who rest ih =>
      rw [List.map_cons, List.foldl_cons, List.foldl_cons, step_move backlog]
      exact ih backlog

theorem orderly_of_paired {calls : List (HwrAddr × Job)} (same : s.calls = calls) (idle : Idle s)
    (full : ∀ call ∈ calls, call.2.ReadsInFull)
    (paired : ∀ schedule : List Event, Paired (schedule.foldl step s)) : Orderly calls := by
  induction calls generalizing s with
  | nil => trivial
  | cons call rest ih =>
      obtain ⟨addr, job⟩ := call
      have full_job : job.ReadsInFull := full _ List.mem_cons_self
      have full_rest : ∀ call ∈ rest, call.2.ReadsInFull :=
        fun call member => full call (List.mem_cons_of_mem _ member)
      have later (schedule : List Event) : Paired (schedule.foldl step s.nextCall) :=
        paired (.call :: schedule)
      by_cases begins : started addr job.env = true
      · rw [idle.nextCall_started same begins] at later
        rw [Orderly, if_pos begins]
        have early : job.EarlySucceed := by
          intro k before
          by_contra failed
          obtain ⟨t, reached, pc, inflight⟩ :=
            unpaired_of_failed (full_job.withStale 0) before failed
          have now := later ((List.replicate job.count Move.sender ++
            List.replicate (k + 1) Move.callback ++ List.replicate 2 Move.sender).map .move)
          rw [foldl_step_move rfl] at now
          have unpaired : Paired ⟨rest, job.withStale 0, t, []⟩ := by
            rw [← reached]
            exact now
          exact inflight (unpaired (Or.inl pc))
        refine ⟨early, ?_⟩
        intro ends
        have busy : Busy ⟨rest, job.withStale 0,
          Transfer.start (job.withStale 0).env job.offset job.len, []⟩ := busy_start full_job early
        obtain ⟨more, retval, returned⟩ := busy.smooth.exists_returned busy.full busy.early ends
        -- The call comes to its end, and leaves an idle sequence of the other calls.
        have ended : Busy ⟨rest, job.withStale 0, more.foldl (job.withStale 0).move
            (Transfer.start (job.withStale 0).env job.offset job.len), []⟩ :=
          { busy with smooth := busy.smooth.run busy.full busy.early more }
        apply ih rfl (ended.idle returned).2 full_rest
        intro schedule
        have onward := later (more.map .move ++ schedule)
        rw [List.foldl_append, foldl_step_move rfl] at onward
        exact onward
      · rw [idle.nextCall_refused same begins] at later
        rw [Orderly, if_neg begins]
        have still : Idle { s with calls := rest } :=
          ⟨idle.returned, idle.inflight, idle.done, idle.backlog⟩
        exact ih rfl still full_rest later

/-! ## Any sequence of calls -/

/-- However the moves of the calls and of their callbacks are interleaved, a wait
for the completion returns only after the last message of the same call has
completed, exactly if the calls are in order. -/
theorem wait_paired_iff (calls : List (HwrAddr × Job))
    (full : ∀ call ∈ calls, call.2.ReadsInFull) :
    (∀ schedule : List Event, Paired (schedule.foldl step (start calls))) ↔ Orderly calls := by
  constructor
  · exact orderly_of_paired rfl (start_idle calls) full
  · intro orderly schedule
    have inv : Inv (start calls) := ⟨full, Or.inl ⟨start_idle calls, orderly⟩⟩
    exact (Transition.foldl_invariant step Inv (fun _ event inv => inv.step event) inv
      schedule).paired

/-- A call for one byte. -/
def oneByte : HwrAddr × Job := (⟨HAC_RHINO, 0⟩, ⟨[0xaa], calmConfig, 0, 1⟩)

/-- Two calls for one byte each, the second one as far as its check of INIT_B. -/
theorem wait_paired_twice :
    Orderly [oneByte, oneByte] ∧
      Paired ([.call, .move .sender, .move .sender, .move .callback, .move .sender, .move .sender,
        .move .sender, .call, .move .sender, .move .callback, .move .sender, .move .sender].foldl
          step (start [oneByte, oneByte])) := by
  have early : oneByte.2.EarlySucceed := (calmConfig_succeeds [0xaa] 0 1).early
  have orderly : Orderly [oneByte, oneByte] := ⟨early, fun _ => ⟨early, fun _ => trivial⟩⟩
  refine ⟨orderly, ?_⟩
  apply (wait_paired_iff [oneByte, oneByte] _).mpr orderly
  intro call member
  obtain rfl : call = oneByte := by simpa using member
  exact oneByte_readsInFull

/-- A call for a page and a byte, whose first message fails. -/
def failingFirst : Job where
  file := List.replicate 4097 0
  env := { calmConfig with status := fun number => if number = 1 then -eio else 0 }
  offset := 0
  len := 4097

theorem failingFirst_readsInFull : failingFirst.ReadsInFull := by
  apply Job.readsInFull_of_inside (fun _ => rfl)
  intro k lt
  have length_eq : failingFirst.file.length = 4097 := List.length_replicate
  rw [length_eq]
  have two : k < 2 := lt
  obtain rfl | rfl : k = 0 ∨ k = 1 := by omega
  · decide
  · decide

/-- Both messages are submitted, the first one completes with a failure, and the
wait returns with the second one in flight. -/
theorem wait_returns_with_part_in_flight :
    failingFirst.ReadsInFull ∧
      ¬ Paired ([.call, .move .sender, .move .sender, .move .callback, .move .sender,
        .move .sender].foldl step (start [(⟨HAC_RHINO, 0⟩, failingFirst)])) := by
  refine ⟨failingFirst_readsInFull, ?_⟩
  have begins : started ⟨HAC_RHINO, 0⟩ failingFirst.env = true := rfl
  obtain ⟨t, reached, pc, inflight⟩ := @unpaired_of_failed (failingFirst.withStale 0)
    (failingFirst_readsInFull.withStale 0) 0 (by decide) (by decide)
  have sent := @foldl_step_move ⟨[], failingFirst.withStale 0,
    Transfer.start (failingFirst.withStale 0).env failingFirst.offset failingFirst.len, []⟩ rfl
    [.sender, .sender, .callback, .sender, .sender]
  intro paired
  rw [List.foldl_cons] at paired
  change Paired (([Move.sender, .sender, .callback, .sender, .sender].map Event.move).foldl step
    (nextCall (start [(⟨HAC_RHINO, 0⟩, failingFirst)]))) at paired
  rw [(start_idle _).nextCall_started rfl begins, sent] at paired
  have unpaired : Paired ⟨[], failingFirst.withStale 0, t, []⟩ := by
    rw [← reached]
    exact paired
  exact inflight (unpaired (Or.inl pc))

end Sequence

end Rhino.Hwr.Configure
