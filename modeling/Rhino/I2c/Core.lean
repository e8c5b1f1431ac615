import Rhino.Transition.Run
import Mathlib.Data.Int.Notation
import Mathlib.Data.Nat.Notation
import Mathlib.Logic.Function.Basic

/-!
# The I2C bus

`utils/util/i2c.c`.  Which slave a transfer reaches is kept by the kernel, for each open
file; the `I2C_SLAVE` control sets it.  The functions for reading and writing keep a copy
of the last address in a static variable and leave the control out if they are asked for
this address again.  Opening and closing the bus do not touch the copy.

So all depends on how a session begins, from one opening or closing of the bus to the
next: the first call that gets as far as a transfer must not be for the address that is
remembered.  `transfers_reach_slave_iff` says so of whole runs.
-/

namespace Rhino.I2c

open Rhino.Transition

def I2C_MAX_BUFLEN : ℤ := 4

/-- A system call on a descriptor: `open` with its result, the `I2C_SLAVE` control with
its result, and the transfers, which are for the slave `adr`. -/
inductive SysEvent where
  | opened (fd : ℤ)
  | closed (fd : ℤ)
  | slave (fd : ℤ) (adr : UInt8) (result : ℤ)
  | write (fd : ℤ) (adr : UInt8) (buf : List UInt8) (count : ℤ)
  | read (fd : ℤ) (adr : UInt8) (count : ℤ)
  deriving DecidableEq

/-! ## What the kernel keeps -/

/-- The slave that was last selected on the file that is open at a descriptor. -/
abbrev Selected := ℤ → Option UInt8

def SysEvent.apply (selected : Selected) : SysEvent → Selected
  | .opened fd => Function.update selected fd none
  | .closed fd => Function.update selected fd none
  | .slave fd adr result =>
      if result < 0 then selected else Function.update selected fd (some adr)
  | .write _ _ _ _ => selected
  | .read _ _ _ => selected

/-- A transfer reaches the slave it is for. -/
def SysEvent.Addressed (selected : Selected) : SysEvent → Prop
  | .write fd adr _ _ => selected fd = some adr
  | .read fd adr _ => selected fd = some adr
  | _ => True

instance (selected : Selected) : (event : SysEvent) → Decidable (event.Addressed selected)
  | .opened _ => isTrue trivial
  | .closed _ => isTrue trivial
  | .slave _ _ _ => isTrue trivial
  | .write fd adr _ _ => inferInstanceAs (Decidable (selected fd = some adr))
  | .read fd adr _ => inferInstanceAs (Decidable (selected fd = some adr))

/-- Every transfer of a trace reaches the slave it is for. -/
def WellAddressed (selected : Selected) (trace : List SysEvent) : Prop :=
  Along (fun selected event => some (SysEvent.apply selected event))
    (fun selected event => event.Addressed selected) selected trace

instance (selected : Selected) (trace : List SysEvent) : Decidable (WellAddressed selected trace) :=
  inferInstanceAs (Decidable (Along _ _ _ _))

/-! ## The functions -/

/-- The static variables.  Only addresses are assigned to `slave_address`. -/
structure Statics where
  i2cDev : ℤ
  slaveAddress : UInt8
  deriving DecidableEq

def Statics.initial : Statics where
  i2cDev := 0
  slaveAddress := 0

/-- A call that has returned. -/
structure Returned where
  result : ℤ
  events : List SysEvent
  statics : Statics

/-- What the system calls of `i2c_read` and `i2c_write` return, and what `read` leaves in
the buffer. -/
structure Sys where
  ioctl : ℤ
  write : ℤ
  read : ℤ
  buf : ℕ → UInt8

def i2cOpen (fd : ℤ) (s : Statics) : Returned where
  result := if fd = -1 then 1 else 0
  events := [.opened fd]
  statics := { s with i2cDev := fd }

def i2cClose (rv : ℤ) (s : Statics) : Returned :=
  if s.i2cDev ≠ 0 then ⟨rv, [.closed s.i2cDev], { s with i2cDev := 0 }⟩
  else ⟨0, [], s⟩

/-- The front of `i2c_read` and `i2c_write`; the rest returns a value and makes transfers
at a descriptor. -/
def onSlave (adr : UInt8) (ioctl : ℤ) (rest : ℤ → ℤ × List SysEvent) (s : Statics) : Returned :=
  if adr ≠ s.slaveAddress then
    if ioctl < 0 then ⟨-1, [.slave s.i2cDev adr ioctl], s⟩
    else
      ⟨(rest s.i2cDev).1, .slave s.i2cDev adr ioctl :: (rest s.i2cDev).2,
        { s with slaveAddress := adr }⟩
  else ⟨(rest s.i2cDev).1, (rest s.i2cDev).2, s⟩

def i2cRead (adr reg : UInt8) (bufLen : ℤ) (sys : Sys) : Statics → Returned :=
  onSlave adr sys.ioctl fun i2cDev =>
    if sys.write ≠ 1 then (-1, [.write i2cDev adr [reg] 1])
    else (sys.read, [.write i2cDev adr [reg] 1, .read i2cDev adr bufLen])

def i2cWrite (adr reg : UInt8) (buf : ℕ → UInt8) (bufLen : ℤ) (sys : Sys) (s : Statics) :
    Returned :=
  if bufLen > I2C_MAX_BUFLEN then ⟨-1, [], s⟩
  else
    let regbuf := reg :: (List.range bufLen.toNat).map buf
    onSlave adr sys.ioctl (fun i2cDev =>
      (if sys.write = bufLen + 1 then bufLen else -1,
        [.write i2cDev adr regbuf (bufLen + 1)])) s

/-! ## Runs -/

/-- A call of one of the functions, with what its system calls return. -/
inductive Call where
  | open (fd : ℤ)
  | close (rv : ℤ)
  | read (adr reg : UInt8) (bufLen : ℤ) (sys : Sys)
  | write (adr reg : UInt8) (buf : ℕ → UInt8) (bufLen : ℤ) (sys : Sys)

def Call.perform (s : Statics) : Call → Returned
  | .open fd => i2cOpen fd s
  | .close rv => i2cClose rv s
  | .read adr reg bufLen sys => i2cRead adr reg bufLen sys s
  | .write adr reg buf bufLen sys => i2cWrite adr reg buf bufLen sys s

/-- The system calls of a run. -/
def trace (s : Statics) (calls : List Call) : List SysEvent :=
  history (fun s call => some (Call.perform s call).statics)
    (fun s call => (Call.perform s call).events) s calls

/-- The program and the kernel. -/
structure System where
  statics : Statics
  selected : Selected

def System.next (system : System) (call : Call) : System where
  statics := (call.perform system.statics).statics
  selected := (call.perform system.statics).events.foldl SysEvent.apply system.selected

/-- The copy agrees with what the kernel keeps for the open file. -/
def System.Mirrored (system : System) : Prop :=
  system.selected system.statics.i2cDev = some system.statics.slaveAddress

/-- A call that will transfer without selecting the slave. -/
def Call.Relies (s : Statics) : Call → Prop
  | .open _ => False
  | .close _ => False
  | .read adr _ _ _ => adr = s.slaveAddress
  | .write adr _ _ bufLen _ => bufLen ≤ I2C_MAX_BUFLEN ∧ adr = s.slaveAddress

/-! ## Which transfers reach their slave -/

theorem wellAddressed_append {selected : Selected} {first second : List SysEvent} :
    WellAddressed selected (first ++ second) ↔ WellAddressed selected first ∧
      WellAddressed (first.foldl SysEvent.apply selected) second :=
  along_total_append SysEvent.apply

theorem wellAddressed_cons {selected : Selected} {event : SysEvent} {rest : List SysEvent} :
    WellAddressed selected (event :: rest) ↔
      event.Addressed selected ∧ WellAddressed (event.apply selected) rest :=
  along_cons_iff rfl

theorem wellAddressed_nil {selected : Selected} : WellAddressed selected [] :=
  trivial

/-- Transfers for a slave at a descriptor, at least one. -/
structure Transfers (fd : ℤ) (adr : UInt8) (events : List SysEvent) : Prop where
  some : events ≠ []
  all : ∀ event ∈ events, (∃ buf count, event = .write fd adr buf count) ∨
    ∃ count, event = .read fd adr count

section Transfers

variable {fd : ℤ} {adr : UInt8} {events : List SysEvent}

theorem Transfers.foldl_apply (transfers : Transfers fd adr events) (selected : Selected) :
    events.foldl SysEvent.apply selected = selected := by
  have all := transfers.all
  clear transfers
  induction events with
  | nil => rfl
  | cons event rest ih =>
      rw [List.forall_mem_cons] at all
      rw [List.foldl_cons]
      rcases all.1 with ⟨buf, count, rfl⟩ | ⟨count, rfl⟩
      · exact ih all.2
      · exact ih all.2

theorem Transfers.wellAddressed_iff (transfers : Transfers fd adr events) {selected : Selected} :
    WellAddressed selected events ↔ selected fd = Option.some adr := by
  have ⟨some, all⟩ := transfers
  clear transfers
  induction events with
  | nil => contradiction
  | cons event rest ih =>
      rw [List.forall_mem_cons] at all
      have first : event.Addressed selected ↔ selected fd = Option.some adr := by
        rcases all.1 with ⟨buf, count, rfl⟩ | ⟨count, rfl⟩
        · exact Iff.rfl
        · exact Iff.rfl
      have same : event.apply selected = selected := by
        rcases all.1 with ⟨buf, count, rfl⟩ | ⟨count, rfl⟩
        · rfl
        · rfl
      rw [wellAddressed_cons, first, same, and_iff_left_iff_imp]
      intro here
      by_cases last : rest = []
      · rw [last]
        exact wellAddressed_nil
      · exact (ih last all.2).mpr here

end Transfers

/-- What `i2c_read` and `i2c_write` can do: nothing, fail to select the slave, select it
and go on, or go on without. -/
inductive Effect (s : Statics) (relies : Prop) : List SysEvent → Statics → Prop where
  | refused (unrelied : ¬ relies) : Effect s relies [] s
  | unselected (unrelied : ¬ relies) (adr : UInt8) {ioctl : ℤ} (failed : ioctl < 0) :
      Effect s relies [.slave s.i2cDev adr ioctl] s
  | selected (unrelied : ¬ relies) {adr : UInt8} {ioctl : ℤ} (done : ¬ ioctl < 0)
      {events : List SysEvent} (transfers : Transfers s.i2cDev adr events) :
      Effect s relies (.slave s.i2cDev adr ioctl :: events) { s with slaveAddress := adr }
  | relied (relied : relies) {events : List SysEvent}
      (transfers : Transfers s.i2cDev s.slaveAddress events) : Effect s relies events s

theorem effect_onSlave {adr : UInt8} {ioctl : ℤ} {rest : ℤ → ℤ × List SysEvent} {s : Statics}
    (transfers : Transfers s.i2cDev adr (rest s.i2cDev).2) :
    Effect s (adr = s.slaveAddress) (onSlave adr ioctl rest s).events
      (onSlave adr ioctl rest s).statics := by
  unfold onSlave
  split
  · next other =>
      split
      · next failed => exact .unselected other adr failed
      · next done => exact .selected other done transfers
  · next same =>
      have same := not_not.mp same
      refine .relied same ?_
      rw [← same]
      exact transfers

theorem effect_i2cRead (adr reg : UInt8) (bufLen : ℤ) (sys : Sys) (s : Statics) :
    Effect s (adr = s.slaveAddress) (i2cRead adr reg bufLen sys s).events
      (i2cRead adr reg bufLen sys s).statics := by
  apply effect_onSlave
  split
  · exact ⟨nofun, by simp⟩
  · exact ⟨nofun, by simp⟩

theorem effect_i2cWrite (adr reg : UInt8) (buf : ℕ → UInt8) (bufLen : ℤ) (sys : Sys)
    (s : Statics) :
    Effect s (bufLen ≤ I2C_MAX_BUFLEN ∧ adr = s.slaveAddress)
      (i2cWrite adr reg buf bufLen sys s).events (i2cWrite adr reg buf bufLen sys s).statics := by
  unfold i2cWrite
  split
  · next long =>
      refine .refused ?_
      rintro ⟨short, -⟩
      omega
  · next short =>
      rw [and_iff_right (Int.not_lt.mp short)]
      apply effect_onSlave
      exact ⟨nofun, by simp⟩

/-- Selecting a slave makes the copy right. -/
theorem Transfers.mirrored_of_selection {s : Statics} {adr : UInt8} {ioctl : ℤ}
    {events : List SysEvent} (transfers : Transfers s.i2cDev adr events) (done : ¬ ioctl < 0)
    (selected : Selected) :
    System.Mirrored ⟨{ s with slaveAddress := adr },
      (.slave s.i2cDev adr ioctl :: events).foldl SysEvent.apply selected⟩ := by
  rw [List.foldl_cons, transfers.foldl_apply, SysEvent.apply, if_neg done]
  exact Function.update_self _ _ _

section Effect

variable {s next : Statics} {relies : Prop} {events : List SysEvent} {selected : Selected}

/-- The transfers of a call reach their slave unless it relies on a copy that is wrong. -/
theorem Effect.wellAddressed_iff (effect : Effect s relies events next) :
    WellAddressed selected events ↔
      (relies → selected s.i2cDev = some s.slaveAddress) := by
  cases effect with
  | refused unrelied =>
      exact iff_of_true wellAddressed_nil (absurd · unrelied)
  | unselected unrelied adr failed =>
      refine iff_of_true ?_ (absurd · unrelied)
      exact wellAddressed_cons.mpr ⟨trivial, wellAddressed_nil⟩
  | selected unrelied done transfers =>
      refine iff_of_true ?_ (absurd · unrelied)
      refine wellAddressed_cons.mpr ⟨trivial, transfers.wellAddressed_iff.mpr ?_⟩
      rw [SysEvent.apply, if_neg done, Function.update_self]
  | relied relied transfers =>
      rw [transfers.wellAddressed_iff, imp_iff_right relied]

end Effect

theorem perform_wellAddressed_iff (system : System) (call : Call) :
    WellAddressed system.selected (call.perform system.statics).events ↔
      (call.Relies system.statics → system.Mirrored) := by
  cases call with
  | «open» fd =>
      refine iff_of_true ?_ False.elim
      exact wellAddressed_cons.mpr ⟨trivial, wellAddressed_nil⟩
  | close rv =>
      refine iff_of_true ?_ False.elim
      rw [Call.perform, i2cClose]
      split
      · exact wellAddressed_cons.mpr ⟨trivial, wellAddressed_nil⟩
      · exact wellAddressed_nil
  | read adr reg bufLen sys =>
      exact (effect_i2cRead adr reg bufLen sys system.statics).wellAddressed_iff
  | write adr reg buf bufLen sys =>
      exact (effect_i2cWrite adr reg buf bufLen sys system.statics).wellAddressed_iff

theorem wellAddressed_trace_cons {system : System} {call : Call} {rest : List Call} :
    WellAddressed system.selected (trace system.statics (call :: rest)) ↔
      WellAddressed system.selected (call.perform system.statics).events ∧
        WellAddressed (system.next call).selected (trace (system.next call).statics rest) := by
  rw [trace, history_cons rfl, wellAddressed_append]
  exact Iff.rfl

/-! ## Sessions -/

/-- A call that does not open or close the bus. -/
def Call.Accesses : Call → Prop
  | .open _ => False
  | .close _ => False
  | _ => True

/-- The events have a transfer among them. -/
def transferring (events : List SysEvent) : Bool :=
  events.any fun event =>
    match event with
    | .write _ _ _ _ => true
    | .read _ _ _ => true
    | _ => false

/-- The static variables, and whether a call of the session has got as far as a
transfer. -/
structure Session where
  statics : Statics
  settled : Bool

/-- A session ends where the bus is opened or an open file is closed. -/
def Session.next (session : Session) (call : Call) : Session where
  statics := (call.perform session.statics).statics
  settled :=
    match call with
    | .open _ => false
    | .close _ => decide (session.statics.i2cDev = 0) && session.settled
    | _ => session.settled || transferring (call.perform session.statics).events

/-- A call for the address that is remembered is made only behind another one of the
session that has got as far as a transfer. -/
def Session.Selects (session : Session) (call : Call) : Prop :=
  call.Relies session.statics → session.settled = true

/-- So it is in every session of a run. -/
def SessionsSelect (session : Session) (calls : List Call) : Prop :=
  Along (fun session call => some (Session.next session call)) Session.Selects session calls

/-- Whether the bus has been opened and not been closed since. -/
def openAfter (isOpen : Bool) : Call → Bool
  | .open _ => true
  | .close _ => false
  | _ => isOpen

/-- All calls that access the bus are made while it is open. -/
def AccessedOpen (isOpen : Bool) (calls : List Call) : Prop :=
  Along (fun isOpen call => some (openAfter isOpen call))
    (fun isOpen call => call.Accesses → isOpen = true) isOpen calls

section Accesses

variable {call : Call}

theorem Call.Relies.accesses {s : Statics} (relies : call.Relies s) : call.Accesses := by
  cases call with
  | «open» fd => exact relies
  | close rv => exact relies
  | read adr reg bufLen sys => trivial
  | write adr reg buf bufLen sys => trivial

theorem Call.Accesses.effect (accesses : call.Accesses) (s : Statics) :
    Effect s (call.Relies s) (call.perform s).events (call.perform s).statics := by
  cases call with
  | «open» fd => exact accesses.elim
  | close rv => exact accesses.elim
  | read adr reg bufLen sys => exact effect_i2cRead adr reg bufLen sys s
  | write adr reg buf bufLen sys => exact effect_i2cWrite adr reg buf bufLen sys s

theorem Call.Accesses.settled (accesses : call.Accesses) (session : Session) :
    (session.next call).settled =
      (session.settled || transferring (call.perform session.statics).events) := by
  cases call with
  | «open» fd => exact accesses.elim
  | close rv => exact accesses.elim
  | read adr reg bufLen sys => rfl
  | write adr reg buf bufLen sys => rfl

end Accesses

theorem Transfers.transferring {fd : ℤ} {adr : UInt8} {events : List SysEvent}
    (transfers : Transfers fd adr events) : transferring events = true := by
  cases events with
  | nil => exact (transfers.some rfl).elim
  | cons event rest =>
      rcases transfers.all event List.mem_cons_self with ⟨buf, count, rfl⟩ | ⟨count, rfl⟩
      · rfl
      · rfl

/-- The copy is right behind a call that gets as far as a transfer and does not rely on a
wrong one; another call changes nothing. -/
theorem Effect.mirrored_or_unchanged {s after : Statics} {relies : Prop}
    {events : List SysEvent} {selected : Selected} (effect : Effect s relies events after)
    (right : relies → System.Mirrored ⟨s, selected⟩) :
    (transferring events = true ∧
        System.Mirrored ⟨after, events.foldl SysEvent.apply selected⟩) ∨
      transferring events = false ∧ after = s ∧
        events.foldl SysEvent.apply selected = selected := by
  cases effect with
  | refused unrelied => exact Or.inr ⟨rfl, rfl, rfl⟩
  | unselected unrelied adr failed => exact Or.inr ⟨rfl, rfl, if_pos failed⟩
  | selected unrelied done transfers =>
      exact Or.inl ⟨transfers.transferring, transfers.mirrored_of_selection done selected⟩
  | relied relied transfers =>
      rw [transfers.foldl_apply]
      exact Or.inl ⟨transfers.transferring, right relied⟩

/-- A close with no file open does nothing. -/
theorem next_close_eq {system : System} (closed : system.statics.i2cDev = 0) (rv : ℤ) :
    system.next (.close rv) = system := by
  have nothing : i2cClose rv system.statics = ⟨0, [], system.statics⟩ :=
    if_neg (not_not.mpr closed)
  simp only [System.next, Call.perform, nothing, List.foldl_nil]

section Runs

variable {system : System} {settled : Bool} {call : Call} {calls : List Call}

/-- Once a call of a session has got as far as a transfer, the copy is right for the rest
of it. -/
theorem mirrored_next (right : settled = true → system.Mirrored)
    (selects : Session.Selects ⟨system.statics, settled⟩ call)
    (after : (Session.next ⟨system.statics, settled⟩ call).settled = true) :
    (system.next call).Mirrored := by
  by_cases accesses : call.Accesses
  · rcases (accesses.effect system.statics).mirrored_or_unchanged
      (fun relied => right (selects relied)) with
      ⟨-, mirrored⟩ | ⟨silent, statics_eq, selected_eq⟩
    · exact mirrored
    · have before : settled = true := by
        rw [accesses.settled] at after
        change (settled || _) = true at after
        rwa [silent, Bool.or_false] at after
      have same : system.next call = system := by
        rw [System.next, statics_eq, selected_eq]
      rw [same]
      exact right before
  · cases call with
    | «open» fd => contradiction
    | close rv =>
        obtain ⟨closed, before⟩ := Bool.and_eq_true_iff.mp after
        rw [next_close_eq (of_decide_eq_true closed)]
        exact right before
    | read adr reg bufLen sys => exact absurd trivial accesses
    | write adr reg buf bufLen sys => exact absurd trivial accesses

/-- Whatever the system calls return, the transfers of a run reach their slaves if every
session selects its first one. -/
theorem wellAddressed_of_sessionsSelect (right : settled = true → system.Mirrored)
    (selects : SessionsSelect ⟨system.statics, settled⟩ calls) :
    WellAddressed system.selected (trace system.statics calls) := by
  induction calls generalizing system settled with
  | nil => exact wellAddressed_nil
  | cons call rest ih =>
      obtain ⟨now, later⟩ := (along_cons_iff rfl).mp selects
      rw [wellAddressed_trace_cons, perform_wellAddressed_iff]
      exact ⟨fun relied => right (now relied), ih (mirrored_next right now) later⟩

/-- A session on an open file begins with nothing selected, and this stays so until a call
gets as far as a transfer. -/
theorem fresh_next {isOpen : Bool}
    (fresh : isOpen = true → settled = false →
      system.selected system.statics.i2cDev = none)
    (reach : call.Relies system.statics → system.Mirrored)
    (opened : openAfter isOpen call = true)
    (after : (Session.next ⟨system.statics, settled⟩ call).settled = false) :
    (system.next call).selected (system.next call).statics.i2cDev = none := by
  by_cases accesses : call.Accesses
  · have stays : isOpen = true := by
      cases call with
      | «open» fd => exact accesses.elim
      | close rv => exact accesses.elim
      | read adr reg bufLen sys => exact opened
      | write adr reg buf bufLen sys => exact opened
    rw [accesses.settled] at after
    obtain ⟨before, silent⟩ := Bool.or_eq_false_iff.mp after
    rcases (accesses.effect system.statics).mirrored_or_unchanged reach with
      ⟨transfers, -⟩ | ⟨-, statics_eq, selected_eq⟩
    · cases silent.symm.trans transfers
    · rw [System.next, statics_eq, selected_eq]
      exact fresh stays before
  · cases call with
    | «open» fd => exact Function.update_self _ _ _
    | close rv => contradiction
    | read adr reg bufLen sys => exact absurd trivial accesses
    | write adr reg buf bufLen sys => exact absurd trivial accesses

/-- If the bus is accessed only while it is open, the condition on its sessions is also
needed. -/
theorem sessionsSelect_of_wellAddressed {isOpen : Bool}
    (fresh : isOpen = true → settled = false →
      system.selected system.statics.i2cDev = none)
    (opened : AccessedOpen isOpen calls)
    (reach : WellAddressed system.selected (trace system.statics calls)) :
    SessionsSelect ⟨system.statics, settled⟩ calls := by
  induction calls generalizing system settled isOpen with
  | nil => trivial
  | cons call rest ih =>
      obtain ⟨while_open, later⟩ := (along_cons_iff rfl).mp opened
      rw [wellAddressed_trace_cons, perform_wellAddressed_iff] at reach
      refine (along_cons_iff rfl).mpr ⟨?_, ih (fresh_next fresh reach.1) later reach.2⟩
      intro relied
      by_contra unsettled
      have mirrored := reach.1 relied
      rw [System.Mirrored, fresh (while_open relied.accesses) (Bool.not_eq_true _ ▸ unsettled)]
        at mirrored
      contradiction

end Runs

/-- The transfers of a run reach their slaves if in every session the first call that gets
as far as a transfer is not for the address that is remembered; and if the bus is accessed
only while it is open, exactly then. -/
theorem transfers_reach_slave_iff (system : System) (calls : List Call) :
    (SessionsSelect ⟨system.statics, false⟩ calls →
      WellAddressed system.selected (trace system.statics calls)) ∧
    (AccessedOpen false calls →
      (WellAddressed system.selected (trace system.statics calls) ↔
        SessionsSelect ⟨system.statics, false⟩ calls)) := by
  have enough : SessionsSelect ⟨system.statics, false⟩ calls →
      WellAddressed system.selected (trace system.statics calls) :=
    wellAddressed_of_sessionsSelect Bool.noConfusion
  refine ⟨enough, fun opened => ⟨?_, enough⟩⟩
  exact sessionsSelect_of_wellAddressed Bool.noConfusion opened

/-- Results of system calls that all succeed, for a register of `count` bytes. -/
def Sys.done (count : ℤ) : Sys where
  ioctl := 0
  write := 1
  read := count
  buf := fun _ => 0

/-- The bus is opened, used for slave 64, closed, and opened and used for it again.  No
slave is selected on the second file.  Slave 0 is never selected. -/
theorem reopened_bus_has_no_slave :
    let again := [.open 3, .read 64 2 2 (.done 2), .close 0, .open 3, .read 64 2 2 (.done 2)]
    ¬ WellAddressed (fun _ => none) (trace .initial again) ∧
      ¬ WellAddressed (fun _ => none) (trace .initial [.open 3, .read 0 2 2 (.done 2)]) := by
  decide

end Rhino.I2c
