import Rhino.Hwr.Configure.Correctness

/-!
# A configuration behind messages of earlier calls

A call that leaves its sending loop early leaves messages of its own in flight.
Their callbacks run during the next call, and share `config_transfer_parts` with
it.  The first of them takes the counter from 0 to -1; the next turn of the sender
takes this for a failure that a callback has reported, and returns the byte count
of its read with nothing sent.

So a call can be trusted behind messages of earlier ones only if it submits no part
at all, and else exactly if it has no failure of its own that stays unreported:
`rhinoConfigure_sound_iff`.
-/

namespace Rhino.Hwr.Configure

open Rhino.Bof Rhino.Bytes Rhino.Kernel

section Stray

variable {job : Job} {t : Transfer}

/-- A message of an earlier call that completes first makes the call return the
count of its first read. -/
theorem foldl_stray (submits : job.Submits 1) (stray : Part × ℤ) (rest : List (Part × ℤ)) :
    let b := [Move.callback, .sender].foldl (Behind.move job.file job.env)
      ⟨Transfer.start job.env job.offset job.len, stray :: rest⟩
    b.t.pc = .returned (job.partRead 0).1 ∧ b.t.number = 1 ∧ b.t.completed = [] := by
  intro b
  obtain ⟨part, status⟩ := stray
  obtain ⟨more, read⟩ := submits 0 Nat.zero_lt_one
  let met := (Transfer.start job.env job.offset job.len).strayCompleted part status
  have turn : b.t = sendPart job.file job.env met := rfl
  have unfailed : ¬ (job.partRead met.number).1 < 0 := not_lt.mpr read
  have stopped : met.parts + 1 = 0 := by
    change (if status = 0 then (0 : ℤ) - 1 else -1) + 1 = 0
    split <;> rfl
  have place : (met.offset, met.len) = job.cursor met.number := rfl
  rw [turn, Job.sendPart_eq more place, if_neg unfailed, if_pos stopped]
  exact ⟨rfl, rfl, rfl⟩

/-! ## A call that submits nothing -/

/-- A call that has read nothing and is still on its way. -/
structure Job.Unread (job : Job) (t : Transfer) : Prop where
  number : t.number = 0
  offset : t.offset = job.offset
  len : t.len = job.len
  retval : t.retval < 0
  inflight : t.inflight = []
  completed : t.completed = []
  running : t.pc.result = none
  left : t.pc ≠ .sending → job.len = 0
  crc : t.pc = .startup → job.env.crcInitB = true

/-- The call has failed, or there was nothing to transfer and both pins were high,
or it is still on its way. -/
def Job.Barren (job : Job) (t : Transfer) : Prop :=
  (∃ retval, t.pc = .returned retval ∧ (retval < 0 ∨ job.len = 0 ∧ t.AllTransferred ∧
    job.env.crcInitB = true ∧ job.env.done 0 = true)) ∨ job.Unread t

theorem barren_start : job.Barren (Transfer.start job.env job.offset job.len) :=
  Or.inr
    { number := rfl
      offset := rfl
      len := rfl
      retval := neg_eio_lt_zero
      inflight := rfl
      completed := rfl
      running := rfl
      left := fun moved => absurd rfl moved
      crc := Pc.noConfusion }

theorem Job.Unread.allTransferred (unread : job.Unread t) (empty : job.len = 0) :
    t.AllTransferred := by
  refine ⟨?_, unread.inflight, ?_, ?_⟩
  · rw [unread.len, empty]
  · rw [unread.completed, unread.number]
    rfl
  · rw [unread.completed]
    simp

theorem Job.Unread.sender (unread : job.Unread t) (none : ¬ job.Submits 1) :
    job.Barren (senderMove job.file job.env t) := by
  unfold senderMove
  cases pc : t.pc with
  | sending =>
      by_cases sent : t.len = 0
      · have empty : job.len = 0 := unread.len.symm.trans sent
        simp only [sendPart, if_pos sent]
        exact Or.inr { unread with running := rfl, left := fun _ => empty, crc := Pc.noConfusion }
      · have failed : (job.partRead 0).1 < 0 := by
          by_contra read
          apply none
          intro i lt
          obtain rfl : i = 0 := Nat.lt_one_iff.mp lt
          refine ⟨?_, not_lt.mp read⟩
          change job.len ≠ 0
          rw [← unread.len]
          exact sent
        have place : (t.offset, t.len) = job.cursor t.number := by
          rw [unread.number, unread.offset, unread.len]
          rfl
        rw [Job.sendPart_eq sent place, unread.number, if_pos failed]
        exact Or.inl ⟨_, rfl, Or.inl failed⟩
  | waiting =>
      have empty := unread.left (by simp [pc])
      simp only [waitForCompletion]
      split
      · exact Or.inr unread
      · exact Or.inr { unread with running := rfl, left := fun _ => empty, crc := Pc.noConfusion }
  | crcCheck =>
      have empty := unread.left (by simp [pc])
      simp only [crcCheck]
      split
      · next high =>
        exact Or.inr { unread with
          running := rfl, left := fun _ => empty, crc := fun _ => high }
      · exact Or.inl ⟨_, rfl, Or.inl unread.retval⟩
  | startup =>
      have empty := unread.left (by simp [pc])
      have crc := unread.crc pc
      simp only [startup, pollDone]
      split
      · next high =>
        refine Or.inl ⟨0, rfl, Or.inr ⟨empty, unread.allTransferred empty, crc, ?_⟩⟩
        simpa using high
      · exact Or.inl ⟨_, rfl, Or.inl unread.retval⟩
  | returned retval =>
      have running := unread.running
      rw [pc] at running
      contradiction

/-- Neither a message of an earlier call nor one of its own, of which there is none,
changes what such a call comes to. -/
theorem Job.Barren.callback {b : Behind} (barren : job.Barren b.t) :
    job.Barren (b.callback job.env).t := by
  have kept (part : Part) (status : ℤ) : job.Barren (b.t.strayCompleted part status) := by
    rcases barren with returned | unread
    · exact Or.inl returned
    · exact Or.inr { unread with }
  unfold Behind.callback
  split
  · change job.Barren (spiTransferCompleted job.env b.t)
    unfold spiTransferCompleted
    cases queue : b.t.inflight with
    | nil => exact barren
    | cons part rest =>
        rcases barren with ⟨retval, pc, negative | ⟨-, transferred, -⟩⟩ | unread
        · exact Or.inl ⟨retval, pc, Or.inl negative⟩
        · rw [transferred.2.1] at queue
          contradiction
        · rw [unread.inflight] at queue
          contradiction
  · exact kept _ _

/-- A call that cannot submit a part is not affected by what earlier calls have left
in flight. -/
theorem barren_run (none : ¬ job.Submits 1) (backlog : List (Part × ℤ))
    (schedule : List Move) :
    job.Barren (schedule.foldl (Behind.move job.file job.env)
      ⟨Transfer.start job.env job.offset job.len, backlog⟩).t := by
  apply Transition.foldl_invariant (Behind.move job.file job.env) (fun b => job.Barren b.t)
    (fun b who barren => ?_) barren_start schedule
  cases who with
  | sender =>
      change job.Barren (senderMove job.file job.env b.t)
      rcases barren with returned | unread
      · have still : senderMove job.file job.env b.t = b.t := by
          rcases returned with ⟨retval, pc, -⟩
          simp only [senderMove, pc]
        rw [still]
        exact Or.inl returned
      · exact unread.sender none
  | callback => exact barren.callback

end Stray

/-! ## The result of the call -/

section Result

variable {addr : HwrAddr} {file : File} {offset len : UInt32} {env : ConfigEnv}
  {backlog : List (Part × ℤ)}

/-- The callers of a call that has begun look at where its schedule has taken it. -/
theorem rhinoConfigureBehind_eq_iff (begins : started addr env = true)
    {schedule : List Move} {retval : ℤ} {t : Transfer} :
    rhinoConfigureBehind backlog addr file offset len env schedule = (some retval, t) ↔
      (schedule.foldl (Behind.move file env) ⟨Transfer.start env offset len, backlog⟩).t = t ∧
        t.pc = .returned retval := by
  simp only [rhinoConfigureBehind, if_pos begins, Prod.mk.injEq, Pc.result_eq_some_iff]
  constructor
  · rintro ⟨pc, rfl⟩
    exact ⟨rfl, pc⟩
  · rintro ⟨rfl, pc⟩
    exact ⟨pc, rfl⟩

end Result

/-- Whatever earlier calls have left in flight, a call gives, under every schedule of
the callbacks, a result that its caller may trust exactly when it does not get
started, or cannot meet a failure that it leaves unreported and submits parts only
with nothing of earlier calls in flight. -/
theorem rhinoConfigure_sound_iff (addr : HwrAddr) (file : File) (offset len : UInt32)
    (env : ConfigEnv) (backlog : List (Part × ℤ)) :
    (∀ (schedule : List Move) (retval : ℤ) (t : Transfer),
        rhinoConfigureBehind backlog addr file offset len env schedule = (some retval, t) →
          0 ≤ retval → t.AllTransferred ∧ env.crcInitB = true ∧ env.done 0 = true) ↔
      (started addr env = true → Job.FailuresReported ⟨file, env, offset, len⟩ ∧
        (Job.Submits ⟨file, env, offset, len⟩ 1 → backlog = [])) := by
  let job : Job := ⟨file, env, offset, len⟩
  by_cases begins : started addr env = true
  · by_cases quiet : backlog = []
    · subst quiet
      simp only [rhinoConfigureBehind_eq_iff begins, begins, foldl_behind_nil, implies_true,
        and_true, forall_const]
      constructor
      · intro sound
        apply Job.Sound.failuresReported
        intro schedule retval returned nonneg
        exact sound schedule retval _ ⟨rfl, returned⟩ nonneg
      · rintro reported schedule retval t ⟨rfl, returned⟩ nonneg
        exact reported.sound schedule retval returned nonneg
    · simp only [rhinoConfigureBehind_eq_iff begins, begins, quiet, imp_false, forall_const]
      constructor
      · intro sound
        have silent : ¬ job.Submits 1 := by
          intro submits
          obtain ⟨stray, rest, rfl⟩ := List.exists_cons_of_ne_nil quiet
          obtain ⟨pc, number, completed⟩ := foldl_stray submits stray rest
          have trusted := (sound _ _ _ ⟨rfl, pc⟩ (submits 0 Nat.zero_lt_one).2).1.2.2.1
          change List.length _ = _ at trusted
          rw [completed, number] at trusted
          contradiction
        refine ⟨⟨?_, ?_⟩, silent⟩
        · exact fun k submits => absurd (submits.mono (Nat.le_add_left 1 k)) silent
        · exact fun n submits => absurd (submits.mono (Nat.le_add_left 1 n)) silent
      · rintro ⟨-, silent⟩ schedule retval t ⟨rfl, returned⟩ nonneg
        rcases barren_run silent backlog schedule with ⟨actual, pc, ok⟩ | unread
        · obtain rfl : actual = retval := Pc.returned.inj (pc.symm.trans returned)
          exact (ok.resolve_left (not_lt.mpr nonneg)).2
        · have running := unread.running
          rw [returned] at running
          contradiction
  · simp only [begins, false_implies, iff_true, Bool.false_eq_true]
    intro schedule retval t result nonneg
    have failed := @rhinoConfigureBehind_of_not_started backlog addr file offset len env schedule
      begins
    rw [result] at failed
    cases Option.some.inj failed
    exact absurd nonneg (by decide)

/-- A one-byte payload whose CRC check fails. -/
def crcFailure : ConfigEnv where
  spiDevice := true
  interrupted := false
  readyInitB := fun _ => true
  readIo := fun _ => .upTo PAGE_SIZE
  status := fun _ => 0
  crcInitB := false
  done := fun _ => true
  staleDone := 0

/-- The failed CRC check is returned as the byte count 1, so a non-negative
result says nothing about the pins. -/
theorem rhinoConfigure_returns_count_on_crc_failure :
    ¬ ∀ (addr : HwrAddr) (file : File) (offset len : UInt32) (env : ConfigEnv)
        (schedule : List Move) (retval : ℤ) (t : Transfer),
      rhinoConfigure addr file offset len env schedule = (some retval, t) → 0 ≤ retval →
        t.AllTransferred ∧ env.crcInitB = true ∧ env.done 0 = true := by
  intro sound
  have trusted := sound ⟨HAC_RHINO, 0⟩ [0xaa] 0 1 crcFailure
    [.sender, .callback, .sender, .sender, .sender] 1 _ (Prod.ext (by decide +kernel) rfl)
    (by decide)
  exact absurd trusted.2.1 (by decide)

end Rhino.Hwr.Configure
