import Rhino.Hwr.Configure.Backlog

/-!
# A payload that the file does not have

`rhino_configure` reads until it has as many bytes as its caller asked for, and
takes the end of the file for a read that it has to repeat.  A call that returns a
value that is not negative has therefore read the whole payload, unless a callback
has stopped it.  Below 4 GiB the offsets do not wrap around, and what has been read
lies where the caller said.

`Guarded` says that no callback can stop the call before the end of the payload.
For a payload that the file does not have, `exists_returned_iff` shows that this is
exactly when the call cannot return a value that is not negative.
-/

namespace Rhino.Hwr.Configure

open Rhino.Bof Rhino.Bytes Rhino.Kernel

/-! ## What has been read lies in the file -/

section Cursor

variable {job : Job}

theorem Job.partRead_length_le (k : ℕ) :
    (job.partRead k).2.length ≤ (job.cursor k).2.toNat :=
  (kernelRead_length_le _ _ _ _).trans (min_le_right _ _)

/-- The cursor has moved over bytes of the file. -/
theorem Job.cursor_inside (small : job.file.length < 2 ^ 32) (k : ℕ) :
    ∃ n ≤ job.len.toNat, Inside job.file job.offset.toNat n ∧
      job.cursor k = (job.offset + UInt32.ofNat n, job.len - UInt32.ofNat n) := by
  induction k with
  | zero => exact ⟨0, Nat.zero_le _, fun j lt => absurd lt (Nat.not_lt_zero j), by simp [cursor]⟩
  | succ k ih =>
      rcases ih with ⟨n, le, inside, cursor_eq⟩
      let m := (job.partRead k).2.length
      have offset_lt := job.offset.toNat_lt
      have len_lt := job.len.toNat_lt
      have unwrapped : job.offset.toNat + n < 2 ^ 32 := by
        cases n with
        | zero => exact offset_lt
        | succ n =>
            have := inside n (Nat.lt_succ_self n)
            omega
      have offset_eq : (job.cursor k).1.toNat = job.offset.toNat + n := by
        rw [cursor_eq, UInt32.toNat_add, UInt32.toNat_ofNat', Nat.mod_eq_of_lt (le.trans_lt len_lt),
          Nat.mod_eq_of_lt unwrapped]
      have len_eq : (job.cursor k).2.toNat = job.len.toNat - n := by
        rw [cursor_eq]
        exact toNat_sub_ofNat le
      have rest : m ≤ (job.cursor k).2.toNat := job.partRead_length_le k
      have fresh : Inside job.file (job.cursor k).1.toNat m := kernelRead_inside _ _ _ _
      refine ⟨n + m, by omega, ?_, ?_⟩
      · intro j lt
        by_cases before : j < n
        · exact inside j before
        · have := fresh (j - n) (by omega)
          omega
      · have step : job.cursor (k + 1) =
            ((job.cursor k).1 + UInt32.ofNat m, (job.cursor k).2 - UInt32.ofNat m) := rfl
        rw [step, cursor_eq, UInt32.ofNat_add]
        grind

end Cursor

/-! ## A call that no callback stops -/

/-- No callback takes `config_transfer_parts` to -1 before the end of the payload:
a message behind which the loop reads on completes with status 0, and if anything is
submitted, nothing of earlier calls is in flight. -/
structure Job.Guarded (job : Job) (backlog : List (Part × ℤ)) : Prop where
  alone : job.Submits 1 → backlog = []
  status : ∀ k, job.Submits (k + 2) → job.env.status (k + 1) = 0

/-- As long as no callback fails, `config_transfer_parts` counts the messages in
flight.  If one has failed, the loop cannot submit another part, and it is left only
when there is nothing left to read. -/
structure Job.Undisturbed (job : Job) (t : Transfer) : Prop where
  submits : job.Submits t.number
  place : (t.offset, t.len) = job.cursor t.number
  queue : t.completed.map Prod.fst ++ t.inflight = (List.range t.number).map job.part
  parts : (∀ entry ∈ t.completed, entry.2 = 0) → t.parts = t.inflight.length
  failing : (∃ entry ∈ t.completed, entry.2 ≠ 0) → ¬ job.Submits (t.number + 1)
  left : t.pc ≠ .sending → t.len = 0

section Quiet

variable {job : Job} {t : Transfer} {backlog : List (Part × ℤ)}

theorem undisturbed_start : job.Undisturbed (Transfer.start job.env job.offset job.len) where
  submits := fun i lt => absurd lt (Nat.not_lt_zero i)
  place := rfl
  queue := rfl
  parts := fun _ => rfl
  failing := by
    rintro ⟨entry, member, -⟩
    exact absurd member List.not_mem_nil
  left := fun moved => absurd rfl moved

theorem Job.Undisturbed.zero_of_submits (undisturbed : job.Undisturbed t)
    (submits : job.Submits (t.number + 1)) : ∀ entry ∈ t.completed, entry.2 = 0 := by
  intro entry member
  by_contra nonzero
  exact undisturbed.failing ⟨entry, member, nonzero⟩ submits

/-- A turn that can submit a part is not stopped. -/
theorem Job.Undisturbed.counted (undisturbed : job.Undisturbed t)
    (submits : job.Submits (t.number + 1)) : ¬ t.parts + 1 = 0 := by
  rw [undisturbed.parts (undisturbed.zero_of_submits submits)]
  omega

/-- A turn of the loop. -/
theorem Job.Undisturbed.sendPart (undisturbed : job.Undisturbed t) (pc : t.pc = .sending) :
    (∃ retval < 0, (sendPart job.file job.env t).pc = .returned retval) ∨
      job.Undisturbed (sendPart job.file job.env t) := by
  by_cases sent : t.len = 0
  · simp only [Configure.sendPart, if_pos sent]
    exact Or.inr { undisturbed with left := fun _ => sent }
  · rw [Job.sendPart_eq sent undisturbed.place]
    by_cases failed : (job.partRead t.number).1 < 0
    · rw [if_pos failed]
      exact Or.inl ⟨_, failed, rfl⟩
    · have more : (job.cursor t.number).2 ≠ 0 := by
        rw [← undisturbed.place]
        exact sent
      have submits := undisturbed.submits.succ more (not_lt.mp failed)
      have zero := undisturbed.zero_of_submits submits
      rw [if_neg failed, if_neg (undisturbed.counted submits)]
      refine Or.inr ⟨submits, rfl, ?_, ?_, ?_, fun moved => absurd pc moved⟩
      · simp only [List.range_succ, List.map_append, List.map_singleton, ← undisturbed.queue,
          List.append_assoc]
      · intro _
        simp [undisturbed.parts zero]
      · rintro ⟨entry, member, nonzero⟩
        exact absurd (zero entry member) nonzero

theorem Job.Undisturbed.sender (undisturbed : job.Undisturbed t) :
    (∃ retval < 0, (senderMove job.file job.env t).pc = .returned retval) ∨
      job.Undisturbed (senderMove job.file job.env t) := by
  unfold senderMove
  cases pc : t.pc with
  | sending => exact undisturbed.sendPart pc
  | waiting =>
      have sent := undisturbed.left (by rw [pc]; exact Pc.noConfusion)
      simp only [waitForCompletion]
      split
      · exact Or.inr undisturbed
      · exact Or.inr { undisturbed with left := fun _ => sent }
  | crcCheck =>
      have sent := undisturbed.left (by rw [pc]; exact Pc.noConfusion)
      simp only [crcCheck]
      split
      · exact Or.inr { undisturbed with left := fun _ => sent }
      · exact Or.inr { undisturbed with left := fun _ => sent }
  | startup =>
      have sent := undisturbed.left (by rw [pc]; exact Pc.noConfusion)
      simp only [startup]
      split
      · exact Or.inr { undisturbed with left := fun _ => sent }
      · exact Or.inr { undisturbed with left := fun _ => sent }
  | returned retval => exact Or.inr undisturbed

theorem Job.Undisturbed.callback (undisturbed : job.Undisturbed t)
    (guarded : job.Guarded backlog) : job.Undisturbed (spiTransferCompleted job.env t) := by
  unfold spiTransferCompleted
  cases queue : t.inflight with
  | nil => exact undisturbed
  | cons part rest =>
      have whole := undisturbed.queue
      rw [queue] at whole
      obtain ⟨k, lt, rfl⟩ : ∃ k < t.number, job.part k = part := by
        have member : part ∈ (List.range t.number).map job.part := by
          rw [← whole]
          simp
        simpa using member
      refine { undisturbed with queue := by simpa using whole, parts := ?_, failing := ?_ }
      · intro zero
        have now : job.env.status (job.part k).number = 0 :=
          zero (job.part k, job.env.status (job.part k).number) (by simp)
        have parts := undisturbed.parts fun entry member =>
          zero entry (List.mem_append_left _ member)
        rw [queue, List.length_cons] at parts
        simp only [now, if_true]
        push_cast at parts
        omega
      · rintro ⟨entry, member, nonzero⟩ submits
        rcases List.mem_append.mp member with before | now
        · exact undisturbed.failing ⟨entry, before, nonzero⟩ submits
        · rcases List.mem_singleton.mp now with rfl
          exact nonzero (guarded.status k (submits.mono (Nat.succ_le_succ lt)))

/-- The call has failed, or it is still undisturbed. -/
theorem undisturbed_run (guarded : job.Guarded backlog) (schedule : List Move) :
    let t := schedule.foldl job.move (Transfer.start job.env job.offset job.len)
    (∃ retval < 0, t.pc = .returned retval) ∨ job.Undisturbed t := by
  apply Transition.foldl_invariant job.move
    (fun t => (∃ retval < 0, t.pc = .returned retval) ∨ job.Undisturbed t)
    (fun t who inv => ?_) (Or.inr undisturbed_start) schedule
  rcases inv with ⟨retval, negative, pc⟩ | undisturbed
  · left
    refine ⟨retval, negative, ?_⟩
    cases who with
    | sender => simp [Job.move, move, senderMove, pc]
    | callback =>
        change (spiTransferCompleted job.env t).pc = _
        unfold spiTransferCompleted
        split <;> exact pc
  · cases who with
    | sender => exact undisturbed.sender
    | callback => exact Or.inr (undisturbed.callback guarded)

/-- An undisturbed call that is behind its loop has moved the cursor over the whole
payload. -/
theorem Job.Undisturbed.inside (undisturbed : job.Undisturbed t)
    (small : job.file.length < 2 ^ 32) (moved : t.pc ≠ .sending) :
    Inside job.file job.offset.toNat job.len.toNat := by
  rcases job.cursor_inside small t.number with ⟨n, le, inside, cursor_eq⟩
  have len_eq : t.len = job.len - UInt32.ofNat n :=
    congrArg Prod.snd (undisturbed.place.trans cursor_eq)
  rw [undisturbed.left moved] at len_eq
  have whole : UInt32.ofNat n = job.len := by grind
  have same : (UInt32.ofNat n).toNat = n :=
    UInt32.toNat_ofNat_of_lt' (le.trans_lt job.len.toNat_lt)
  rwa [← whole, same]

/-- A guarded call that returns a value that is not negative has found the whole
payload in the file. -/
theorem Job.Guarded.inside (guarded : job.Guarded backlog) (small : job.file.length < 2 ^ 32)
    {schedule : List Move} {retval : ℤ}
    (returned : (schedule.foldl (Behind.move job.file job.env)
      ⟨Transfer.start job.env job.offset job.len, backlog⟩).t.pc = .returned retval)
    (nonnegative : 0 ≤ retval) : Inside job.file job.offset.toNat job.len.toNat := by
  by_cases submits : job.Submits 1
  · rw [guarded.alone submits, foldl_behind_nil] at returned
    change (schedule.foldl job.move _).pc = _ at returned
    rcases undisturbed_run guarded schedule with ⟨actual, negative, failed⟩ | undisturbed
    · have same : retval = actual := Pc.returned.inj (returned.symm.trans failed)
      omega
    · apply undisturbed.inside small
      rw [returned]
      exact Pc.noConfusion
  · rcases barren_run submits backlog schedule with ⟨actual, pc, ok⟩ | unread
    · have same : retval = actual := Pc.returned.inj (returned.symm.trans pc)
      have empty := (ok.resolve_left (by omega)).1
      rw [empty]
      exact fun j lt => absurd lt (Nat.not_lt_zero j)
    · have running := unread.running
      rw [returned] at running
      contradiction

end Quiet

/-! ## A call that a callback stops -/

section Stopped

variable {job : Job} {backlog : List (Part × ℤ)}

/-- A call that is not guarded returns the count of a read under some schedule. -/
theorem exists_returned_of_not_guarded (exposed : ¬ job.Guarded backlog) :
    ∃ (schedule : List Move) (retval : ℤ), 0 ≤ retval ∧
      (schedule.foldl (Behind.move job.file job.env)
        ⟨Transfer.start job.env job.offset job.len, backlog⟩).t.pc = .returned retval := by
  by_cases alone : job.Submits 1 → backlog = []
  · have open_status : ¬ ∀ k, job.Submits (k + 2) → job.env.status (k + 1) = 0 :=
      fun status => exposed ⟨alone, status⟩
    simp only [not_forall] at open_status
    obtain ⟨k, submits, failed⟩ := open_status
    have quiet : backlog = [] := alone (submits.mono (Nat.le_add_left 1 (k + 1)))
    refine ⟨List.replicate (k + 1) .sender ++ List.replicate (k + 1) .callback ++ [.sender],
      (job.partRead (k + 1)).1, (submits (k + 1) (Nat.lt_succ_self _)).2, ?_⟩
    rw [quiet, foldl_behind_nil]
    exact (foldl_stopped submits failed).1
  · rw [Classical.not_imp] at alone
    obtain ⟨submits, nonempty⟩ := alone
    obtain ⟨stray, rest, rfl⟩ := List.exists_cons_of_ne_nil nonempty
    exact ⟨_, _, (submits 0 Nat.zero_lt_one).2, (foldl_stray submits stray rest).1⟩

end Stopped

/-- A call for a payload that a file below 4 GiB does not have can return a value that
is not negative exactly if it is not guarded. -/
theorem exists_returned_iff {addr : HwrAddr} {file : File} {offset len : UInt32}
    {env : ConfigEnv} {backlog : List (Part × ℤ)} (begins : started addr env = true)
    (small : file.length < 2 ^ 32) (absent : ¬ Inside file offset.toNat len.toNat) :
    (∃ (schedule : List Move) (retval : ℤ), 0 ≤ retval ∧
      (rhinoConfigureBehind backlog addr file offset len env schedule).1 = some retval) ↔
        ¬ Job.Guarded ⟨file, env, offset, len⟩ backlog := by
  simp only [rhinoConfigureBehind, begins, if_true, Pc.result_eq_some_iff]
  constructor
  · rintro ⟨schedule, retval, nonnegative, returned⟩ guarded
    exact absent (guarded.inside small returned nonnegative)
  · exact exists_returned_of_not_guarded

/-- A guarded call has found in the file what it says it has configured. -/
theorem inside_of_returned {addr : HwrAddr} {file : File} {offset len : UInt32}
    {env : ConfigEnv} {backlog : List (Part × ℤ)} {schedule : List Move} {retval : ℤ}
    (small : file.length < 2 ^ 32) (guarded : Job.Guarded ⟨file, env, offset, len⟩ backlog)
    (returned : (rhinoConfigureBehind backlog addr file offset len env schedule).1 = some retval)
    (nonnegative : 0 ≤ retval) : Inside file offset.toNat len.toNat := by
  by_cases begins : started addr env = true
  · simp only [rhinoConfigureBehind, begins, if_true, Pc.result_eq_some_iff] at returned
    exact guarded.inside small returned nonnegative
  · rw [rhinoConfigureBehind_of_not_started begins] at returned
    rcases Option.some.inj returned with rfl
    exact absurd nonnegative (by decide)

end Rhino.Hwr.Configure
