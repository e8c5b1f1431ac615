import Rhino.Ioreg.Directory
import Rhino.Transition.Cursor
import Mathlib.Data.Finset.Card
import Mathlib.Order.Interval.Finset.Nat

/-!
# Listing the registers

`proc_ioreg_readdir` hands the entries of the directory to `filldir` until one is
refused because the buffer of the user is full.  The next call resumes at the
position that is left in the file.  Whatever is refused, the calls together hand
out the entries one by one, each register once and in the order of the list.
-/

namespace Rhino.Ioreg

open Rhino.Bytes Rhino.Kernel Rhino.Loader Rhino.Transition

/-- The list of registers as it lies in memory: every node has an address of its
own, which `kmalloc` has aligned. -/
structure IoregNodes where
  nodes : List (UInt32 × Ioreg)
  distinct : (nodes.map Prod.fst).Nodup
  aligned : ∀ node ∈ nodes, node.1.toNat % 4 = 0

/-- There are not more nodes than places for them. -/
theorem IoregNodes.length_le (list : IoregNodes) : list.nodes.length ≤ 2 ^ 30 := by
  have aligned : ∀ addr ∈ list.nodes.map Prod.fst, addr.toNat % 4 = 0 := by
    intro addr mem
    rcases List.mem_map.mp mem with ⟨node, listed, rfl⟩
    exact list.aligned node listed
  have nodup : ((list.nodes.map Prod.fst).map fun addr => addr.toNat / 4).Nodup := by
    apply list.distinct.map_on
    intro first firstMem second secondMem same
    have := aligned first firstMem
    have := aligned second secondMem
    exact UInt32.toNat_inj.mp (by omega)
  have inside : ((list.nodes.map Prod.fst).map fun addr => addr.toNat / 4).toFinset ⊆
      Finset.range (2 ^ 30) := by
    intro place mem
    rcases List.mem_map.mp (List.mem_toFinset.mp mem) with ⟨addr, -, rfl⟩
    have := addr.toNat_lt
    exact Finset.mem_range.mpr (by omega)
  have count := Finset.card_le_card inside
  rwa [List.toFinset_card_of_nodup nodup, List.length_map, List.length_map, Finset.card_range]
    at count

/-- An entry of the directory. -/
inductive Entry where
  | dot
  | dotdot
  | ioreg (node : UInt32 × Ioreg)

/-- What a call comes to: the value it returns, the position it leaves in the file,
and the entries that `filldir` has taken. -/
structure Listing where
  retval : ℤ
  fpos : ℕ
  emitted : List Entry

/-- A call that has handed out entries before. -/
def Listing.behind (front : List Entry) (listing : Listing) : Listing :=
  { listing with emitted := front ++ listing.emitted }

/-- The loop of `proc_ioreg_readdir` over the registers that are left. -/
def fillIoregs (fill : ℕ → Entry → Bool) (pos : UInt32) :
    UInt32 → ℕ → List (UInt32 × Ioreg) → Listing
  | _, fpos, [] => ⟨1, fpos, []⟩
  | i, fpos, node :: rest =>
      if pos ≤ i then
        if fill fpos (.ioreg node) then
          (fillIoregs fill pos (i + 1) (fpos + 1) rest).behind [.ioreg node]
        else ⟨0, fpos, []⟩
      else fillIoregs fill pos (i + 1) fpos rest

/-- The last case of its `switch`. -/
def fillInfo (fill : ℕ → Entry → Bool) (pos : UInt32) (fpos : ℕ) : Option IoregNodes → Listing
  | none => ⟨1, fpos, []⟩
  | some list => fillIoregs fill pos 2 fpos list.nodes

/-- `proc_ioreg_readdir` with the entries that it hands out.  `fill` says whether
`filldir` takes an entry with a number. -/
def readdirEntries (pid : ℕ) (info : Option IoregNodes) (fill : ℕ → Entry → Bool) (fpos : ℕ) :
    Listing :=
  let pos := UInt32.ofNat fpos
  if pid = 0 then ⟨-enoent, fpos, []⟩
  else if pos = 0 ∧ ¬ fill 0 .dot then ⟨0, fpos, []⟩
  else
    let dots := if pos = 0 then [.dot] else []
    let fpos := if pos = 0 then fpos + 1 else fpos
    if pos ≤ 1 ∧ ¬ fill 1 .dotdot then ⟨0, fpos, dots⟩
    else
      let dots := if pos ≤ 1 then dots ++ [.dotdot] else dots
      let fpos := if pos ≤ 1 then fpos + 1 else fpos
      (fillInfo fill pos fpos info).behind dots

/-- All entries, in order. -/
def entries (info : Option IoregNodes) : List Entry :=
  .dot :: .dotdot :: (info.elim [] IoregNodes.nodes).map Entry.ioreg

/-- A call that hands out a portion returns 1 at the end and 0 if it is refused. -/
def Listing.ofPortion (portion : Portion Entry) : Listing :=
  ⟨if portion.finished then 1 else 0, portion.position, portion.emitted⟩

/-! ## One call -/

theorem toNat_succ_of_lt {i : UInt32} (small : i.toNat + 1 < 2 ^ 32) :
    (i + 1).toNat = i.toNat + 1 := by
  rw [UInt32.toNat_add]
  exact Nat.mod_eq_of_lt small

/-- Once the position is reached, the loop hands out every register. -/
theorem fillIoregs_of_le (fill : ℕ → Entry → Bool) {pos i : UInt32}
    {nodes : List (UInt32 × Ioreg)} (reached : pos.toNat ≤ i.toNat)
    (small : i.toNat + nodes.length < 2 ^ 32) :
    fillIoregs fill pos i i.toNat nodes =
      .ofPortion (portion fill i.toNat (nodes.map Entry.ioreg)) := by
  induction nodes generalizing i with
  | nil => rfl
  | cons node rest ih =>
      rw [List.length_cons] at small
      have next : (i + 1).toNat = i.toNat + 1 := toNat_succ_of_lt (by omega)
      have later := @ih (i + 1) (by omega) (by omega)
      rw [next] at later
      rw [fillIoregs, if_pos (UInt32.le_iff_toNat_le.mpr reached), List.map_cons, portion]
      split
      · rw [later]
        rfl
      · rfl

/-- Before that it passes over the registers that have been handed out. -/
theorem fillIoregs_eq (fill : ℕ → Entry → Bool) {pos i : UInt32}
    {nodes : List (UInt32 × Ioreg)} (ahead : i.toNat ≤ pos.toNat)
    (small : i.toNat + nodes.length < 2 ^ 32) :
    fillIoregs fill pos i pos.toNat nodes =
      .ofPortion (portion fill pos.toNat ((nodes.map Entry.ioreg).drop (pos.toNat - i.toNat))) := by
  induction nodes generalizing i with
  | nil =>
      rw [List.map_nil, List.drop_nil]
      rfl
  | cons node rest ih =>
      by_cases reached : pos.toNat ≤ i.toNat
      · have same : pos.toNat = i.toNat := le_antisymm reached ahead
        rw [same, Nat.sub_self]
        exact fillIoregs_of_le fill reached small
      · rw [List.length_cons] at small
        have next : (i + 1).toNat = i.toNat + 1 := toNat_succ_of_lt (by omega)
        have skipped : pos.toNat - i.toNat = pos.toNat - (i + 1).toNat + 1 := by omega
        rw [fillIoregs, if_neg (fun le => reached (UInt32.le_iff_toNat_le.mp le)),
          ih (by omega) (by omega), skipped, List.map_cons, List.drop_succ_cons]

/-- The registers, from the first one or from the position on. -/
theorem fillInfo_eq (fill : ℕ → Entry → Bool) (info : Option IoregNodes) {pos : UInt32} {fpos : ℕ}
    (start : fpos = max 2 pos.toNat) :
    fillInfo fill pos fpos info = .ofPortion (portion fill fpos ((entries info).drop fpos)) := by
  have front : (entries info).drop fpos =
      ((info.elim [] IoregNodes.nodes).map Entry.ioreg).drop (fpos - 2) := by
    have split : fpos = fpos - 2 + 1 + 1 := by omega
    rw [split, entries, List.drop_succ_cons, List.drop_succ_cons]
    rfl
  rw [front]
  cases info with
  | none =>
      rw [Option.elim_none, List.map_nil, List.drop_nil]
      rfl
  | some list =>
      have small : (2 : UInt32).toNat + list.nodes.length < 2 ^ 32 := by
        have := list.length_le
        change 2 + list.nodes.length < 2 ^ 32
        omega
      by_cases reached : pos.toNat ≤ 2
      · rw [max_eq_left reached] at start
        subst start
        exact fillIoregs_of_le fill reached small
      · rw [max_eq_right (by omega)] at start
        subst start
        exact fillIoregs_eq fill (by change 2 ≤ pos.toNat; omega) small

theorem entries_length_lt (info : Option IoregNodes) : (entries info).length < 2 ^ 32 := by
  cases info with
  | none => decide
  | some list =>
      have := list.length_le
      simp only [entries, Option.elim_some, List.length_cons, List.length_map]
      omega

/-- A call hands out a portion of the entries from its position on. -/
theorem readdirEntries_eq {pid : ℕ} (alive : pid ≠ 0) (info : Option IoregNodes)
    (fill : ℕ → Entry → Bool) {fpos : ℕ} (inside : fpos ≤ (entries info).length) :
    readdirEntries pid info fill fpos =
      .ofPortion (portion fill fpos ((entries info).drop fpos)) := by
  have same : (UInt32.ofNat fpos).toNat = fpos :=
    UInt32.toNat_ofNat_of_lt' (inside.trans_lt (entries_length_lt info))
  rcases fpos with _ | _ | fpos
  · have rest := @fillInfo_eq fill info 0 2 rfl
    have call : readdirEntries pid info fill 0 =
        if fill 0 .dot then
          if fill 1 .dotdot then (fillInfo fill 0 2 info).behind [.dot, .dotdot]
          else ⟨0, 1, [.dot]⟩
        else ⟨0, 0, []⟩ := by
      cases dot : fill 0 .dot <;> cases dotdot : fill 1 .dotdot <;>
        simp [readdirEntries, alive, dot, dotdot]
    rw [call, rest, entries, List.drop_zero, portion, portion]
    split
    · split
      · rfl
      · rfl
    · rfl
  · have rest := @fillInfo_eq fill info 1 2 rfl
    have call : readdirEntries pid info fill 1 =
        if fill 1 .dotdot then (fillInfo fill 1 2 info).behind [.dotdot] else ⟨0, 1, []⟩ := by
      cases dotdot : fill 1 .dotdot <;> simp [readdirEntries, alive, dotdot]
    rw [Nat.zero_add, call, rest, entries, List.drop_one, List.tail_cons, portion]
    split
    · rfl
    · rfl
  · have past : ¬ UInt32.ofNat (fpos + 1 + 1) ≤ 1 := by
      rw [UInt32.le_iff_toNat_le, same]
      change ¬ fpos + 1 + 1 ≤ 1
      omega
    have nonzero : UInt32.ofNat (fpos + 1 + 1) ≠ 0 := by
      intro zero
      rw [zero] at past
      exact past (by decide)
    have call : readdirEntries pid info fill (fpos + 1 + 1) =
        fillInfo fill (UInt32.ofNat (fpos + 1 + 1)) (fpos + 1 + 1) info := by
      simp only [readdirEntries, if_neg alive, nonzero, past, false_and, if_false]
      rfl
    rw [call]
    exact fillInfo_eq fill info (by rw [same]; omega)

/-! ## The names of the entries -/

/-- The name of a register, as `strlen` finds it. -/
def registerName (reg : Ioreg) : List UInt8 :=
  slice reg.name ((strlen reg.strtab reg.name).getD 0) reg.strtab

def Entry.name : Entry → List UInt8
  | dot => [46]
  | dotdot => [46, 46]
  | ioreg node => registerName node.2

/-- The value and the position of a call. -/
def Listing.outcome (listing : Listing) : ℤ × ℕ :=
  (listing.retval, listing.fpos)

/-- The loop without its entries. -/
theorem readdirIoregs_eq (fill : ℕ → List UInt8 → Bool) {pos i : UInt32} {fpos : ℕ}
    {nodes : List (UInt32 × Ioreg)} (named : ∀ node ∈ nodes, WellNamed node.2)
    (small : i.toNat + nodes.length < 2 ^ 32) (start : fpos = max i.toNat pos.toNat) :
    readdirIoregs fill pos.toNat i.toNat fpos (nodes.map Prod.snd) =
      some (fillIoregs (fun n entry => fill n entry.name) pos i fpos nodes).outcome := by
  induction nodes generalizing i fpos with
  | nil => rfl
  | cons node rest ih =>
      rw [List.length_cons] at small
      have next : (i + 1).toNat = i.toNat + 1 := toNat_succ_of_lt (by omega)
      rcases List.forall_mem_cons.mp named with ⟨head, tail⟩
      rcases Option.isSome_iff_exists.mp (wellNamed_iff.mp head) with ⟨regnamelen, length⟩
      have name : slice node.2.name regnamelen node.2.strtab = (Entry.ioreg node).name := by
        rw [Entry.name, registerName, length]
        rfl
      rw [List.map_cons, readdirIoregs, fillIoregs, length]
      by_cases reached : pos.toNat ≤ i.toNat
      · have later := @ih (i + 1) (fpos + 1) tail (by omega) (by omega)
        have same : i.toNat = fpos := by omega
        rw [next, same] at later
        rw [if_pos reached, if_pos (UInt32.le_iff_toNat_le.mpr reached)]
        simp only [Option.bind_eq_bind, Option.bind_some, name, same]
        by_cases taken : fill fpos (Entry.ioreg node).name = true
        · rw [if_pos taken, if_pos taken]
          exact later
        · rw [if_neg taken, if_neg taken]
          rfl
      · have later := @ih (i + 1) fpos tail (by omega) (by omega)
        rw [next] at later
        rw [if_neg reached, if_neg (fun le => reached (UInt32.le_iff_toNat_le.mp le))]
        exact later

/-- What a call returns and leaves is what `procIoregReaddir` says. -/
theorem procIoregReaddir_eq (pid : ℕ) {info : BorphInfo} (list : IoregNodes)
    (listed : info.ioreg = list.nodes.map Prod.snd) (named : ∀ reg ∈ info.ioreg, WellNamed reg)
    (fill : ℕ → List UInt8 → Bool) {fpos : ℕ} (small : fpos < 2 ^ 32) :
    procIoregReaddir (some ⟨pid, some info⟩) fill fpos =
      some (readdirEntries pid (some list) (fun n entry => fill n entry.name) fpos).outcome := by
  have same : (UInt32.ofNat fpos).toNat = fpos := UInt32.toNat_ofNat_of_lt' small
  have zero : UInt32.ofNat fpos = 0 ↔ fpos = 0 := by
    rw [← UInt32.toNat_inj, same]
    rfl
  have one : UInt32.ofNat fpos ≤ 1 ↔ fpos ≤ 1 := by
    rw [UInt32.le_iff_toNat_le, same]
    rfl
  have bound := list.length_le
  have loop (start : ℕ) (reached : start = max 2 fpos) :
      readdirIoregs fill fpos 2 start info.ioreg =
        some (fillInfo (fun n entry => fill n entry.name) (UInt32.ofNat fpos) start
          (some list)).outcome := by
    have small : (2 : UInt32).toNat + list.nodes.length < 2 ^ 32 := by
      change 2 + list.nodes.length < 2 ^ 32
      omega
    have steps := @readdirIoregs_eq fill (UInt32.ofNat fpos) 2 start list.nodes
      (fun node mem => named node.2 (listed ▸ List.mem_map_of_mem mem)) small
      (by rw [same]; exact reached)
    rw [same, ← listed] at steps
    exact steps
  have outcome (front : List Entry) (listing : Listing) :
      (listing.behind front).outcome = listing.outcome := rfl
  have dotName : Entry.dot.name = [46] := rfl
  have dotdotName : Entry.dotdot.name = [46, 46] := rfl
  simp only [procIoregReaddir, readdirEntries, Nat.mod_eq_of_lt small, zero, one, dotName,
    dotdotName]
  by_cases idle : pid = 0
  · rw [if_pos idle, if_pos idle]
    rfl
  rw [if_neg idle, if_neg idle]
  by_cases dot : fpos = 0 ∧ ¬ fill 0 [46] = true
  · rw [if_pos dot, if_pos dot]
    rfl
  rw [if_neg dot, if_neg dot]
  by_cases dotdot : fpos ≤ 1 ∧ ¬ fill 1 [46, 46] = true
  · rw [if_pos dotdot, if_pos dotdot]
    rfl
  rw [if_neg dotdot, if_neg dotdot, outcome]
  apply loop
  split <;> split <;> omega

/-! ## Calls in a row -/

/-- Calls in a row, one for every pattern of refusals, each from the position that
the one before has left. -/
def readdirs (pid : ℕ) (info : Option IoregNodes) : ℕ → List (ℕ → Entry → Bool) → List Listing
  | _, [] => []
  | fpos, fill :: rest =>
      let first := readdirEntries pid info fill fpos
      first :: readdirs pid info first.fpos rest

theorem readdirs_eq {pid : ℕ} (alive : pid ≠ 0) (info : Option IoregNodes) {fpos : ℕ}
    (inside : fpos ≤ (entries info).length) (fills : List (ℕ → Entry → Bool)) :
    readdirs pid info fpos fills = (portions (entries info) fpos fills).map .ofPortion := by
  induction fills generalizing fpos with
  | nil => rfl
  | cons fill rest ih =>
      rw [readdirs, readdirEntries_eq alive info fill inside, portions, List.map_cons]
      exact congrArg _ (ih (portion_position_le fill inside))

theorem entries_nodup (list : IoregNodes) : (entries (some list)).Nodup := by
  have nodes : list.nodes.Nodup := list.distinct.of_map Prod.fst
  have injective : Function.Injective Entry.ioreg := fun _ _ same => Entry.ioreg.inj same
  simp [entries, nodes.map injective]

/-- A directory of two registers. -/
def twoRegisters : IoregNodes where
  nodes := [(0x1000, regLed), (0x2000, regLed)]
  distinct := by decide
  aligned := by decide

end Rhino.Ioreg
