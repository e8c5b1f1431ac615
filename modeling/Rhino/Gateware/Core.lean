import Rhino.Transition.Run
import Rhino.Ioreg.Bus

/-!
# The example design

`gpmc_test.vhd` of `examples/gpmc_test`: a register file behind the multiplexed bus of the
processor.  The address is recorded at the edges at which `gpmc_n_adv_ale` is low, and a
register is read or written at later ones.  How many edges each part of an access takes is left
to the host; an access has the same effect for every number of them.

`word32_reg` has two words, but the design indexes it with six bits of the address: an access
to another word has no meaning, and the design is then lost.
-/

namespace Rhino.Gateware

open Rhino.Transition

/-! ## The design -/

/-- The pins at a rising edge of `gpmc_clk_i`, and what `fmc0_la_i_b` holds there. -/
structure Pins where
  gpmcA : BitVec 10
  gpmcD : UInt16
  gpmcNCs : BitVec 7
  gpmcNWe : Bool
  gpmcNOe : Bool
  gpmcNAdvAle : Bool
  fmc0LaIB : UInt16

def ID : UInt16 := 0x51

def VERSION : UInt16 := 0x01

/-- The memory regions of the design. -/
inductive Region where
  | version
  | led
  | fmc
  | file
  | word
  deriving DecidableEq, Repr

/-- The alternatives of the `case` over `reg_bank_address`; there is none for `others`. -/
def Region.ofBank : ℕ → Option Region
  | 0 => some .version
  | 1 => some .led
  | 2 => some .fmc
  | 3 => some .file
  | 4 => some .word
  | _ => none

/-- The signals of the design. -/
structure Design where
  gpmcAddress : BitVec 26
  gpmcDataO : UInt16
  ledReg : UInt16
  fmc0LaO : UInt16
  regBank : ℕ → UInt16
  word32Reg : ℕ → UInt16

namespace Design

/-- `reg_bank_address`. -/
def regBankAddress (s : Design) : ℕ :=
  (s.gpmcAddress.extractLsb' 22 4).toNat

/-- `reg_file_address`. -/
def regFileAddress (s : Design) : ℕ :=
  (s.gpmcAddress.extractLsb' 0 6).toNat

/-- The word that a read puts into `gpmc_data_o`. -/
def readout (s : Design) (fmc0LaIB : UInt16) : Option UInt16 :=
  match Region.ofBank s.regBankAddress with
  | some .version => some (ID <<< 8 ||| VERSION)
  | some .led => some s.ledReg
  | some .fmc => some fmc0LaIB
  | some .file => some (s.regBank s.regFileAddress)
  | some .word =>
      if s.regFileAddress < 2 then some (s.word32Reg s.regFileAddress) else none
  | none => some 0

/-- The registers after a write. -/
def written (s : Design) (gpmcDataI : UInt16) : Option Design :=
  match Region.ofBank s.regBankAddress with
  | some .led => some { s with ledReg := gpmcDataI }
  | some .fmc => some { s with fmc0LaO := gpmcDataI }
  | some .file =>
      some { s with regBank := Function.update s.regBank s.regFileAddress gpmcDataI }
  | some .word =>
      if s.regFileAddress < 2 then
        some { s with word32Reg := Function.update s.word32Reg s.regFileAddress gpmcDataI }
      else none
  | some .version => some s
  | none => some s

/-- A rising edge of the clock. -/
def edge (s : Design) (pins : Pins) : Option Design :=
  if pins.gpmcNCs ≠ BitVec.allOnes 7 then
    if pins.gpmcNAdvAle = false then
      some { s with gpmcAddress := pins.gpmcA ++ pins.gpmcD.toBitVec }
    else if pins.gpmcNOe = false then
      (s.readout pins.fmc0LaIB).map fun word => { s with gpmcDataO := word }
    else if pins.gpmcNWe = false then s.written pins.gpmcD
    else some s
  else some s

/-- The pins `led`. -/
def led (s : Design) : UInt8 :=
  s.ledReg.toUInt8

end Design

/-! ## Accesses -/

/-- What the processor asks for. -/
inductive Access where
  | read (word : BitVec 26)
  | write (word : BitVec 26) (value : UInt16)

namespace Pins

/-- An edge that the design takes no notice of. -/
def Quiet (pins : Pins) : Prop :=
  pins.gpmcNCs = BitVec.allOnes 7 ∨
    pins.gpmcNAdvAle = true ∧ pins.gpmcNOe = true ∧ pins.gpmcNWe = true

/-- The edge shows an address. -/
structure Addresses (pins : Pins) (word : BitVec 26) : Prop where
  selected : pins.gpmcNCs ≠ BitVec.allOnes 7
  ale : pins.gpmcNAdvAle = false
  address : pins.gpmcA ++ pins.gpmcD.toBitVec = word

/-- The edge asks for data. -/
structure Reads (pins : Pins) : Prop where
  selected : pins.gpmcNCs ≠ BitVec.allOnes 7
  ale : pins.gpmcNAdvAle = true
  oe : pins.gpmcNOe = false

/-- The edge brings data. -/
structure Writes (pins : Pins) (value : UInt16) : Prop where
  selected : pins.gpmcNCs ≠ BitVec.allOnes 7
  ale : pins.gpmcNAdvAle = true
  oe : pins.gpmcNOe = true
  we : pins.gpmcNWe = false
  data : pins.gpmcD = value

end Pins

/-- The word that an access is about. -/
def Access.word : Access → BitVec 26
  | .read word => word
  | .write word _ => word

/-- The edges with the data of an access. -/
def Access.Data : Access → Pins → Prop
  | .read _, pins => pins.Reads
  | .write _ value, pins => pins.Writes value

/-- The edges of an access: some with the address, some with the data, and quiet ones between and
behind them. -/
structure Access.Edges (access : Access) where
  addressing : List Pins
  gap : List Pins
  data : List Pins
  rest : List Pins
  addressing_ne : addressing ≠ []
  data_ne : data ≠ []
  addresses : ∀ pins ∈ addressing, pins.Addresses access.word
  gap_quiet : ∀ pins ∈ gap, pins.Quiet
  transfers : ∀ pins ∈ data, access.Data pins
  rest_quiet : ∀ pins ∈ rest, pins.Quiet

def Access.Edges.all {access : Access} (edges : access.Edges) : List Pins :=
  edges.addressing ++ edges.gap ++ edges.data ++ edges.rest

/-! ## The effect of an access -/

section Edges

variable {s t : Design} {pins : Pins} {word : BitVec 26} {value : UInt16}

theorem Design.edge_of_quiet (s : Design) (quiet : pins.Quiet) : s.edge pins = some s := by
  rcases quiet with unselected | ⟨ale, oe, we⟩
  · rw [edge, if_neg (not_not.mpr unselected)]
  · simp [edge, ale, oe, we]

theorem Design.edge_of_addresses (s : Design) (shown : pins.Addresses word) :
    s.edge pins = some { s with gpmcAddress := word } := by
  rw [edge, if_pos shown.selected, if_pos shown.ale, shown.address]

theorem Design.edge_of_reads (s : Design) (asked : pins.Reads) :
    s.edge pins = (s.readout pins.fmc0LaIB).map fun word => { s with gpmcDataO := word } := by
  rw [edge, if_pos asked.selected, if_neg (by simp [asked.ale]), if_pos asked.oe]

theorem Design.edge_of_writes (s : Design) (brought : pins.Writes value) :
    s.edge pins = s.written value := by
  rw [edge, if_pos brought.selected, if_neg (by simp [brought.ale]), if_neg (by simp [brought.oe]),
    if_pos brought.we, brought.data]

/-- A write that is repeated changes nothing more. -/
theorem Design.written_again (done : s.written value = some t) : t.written value = some t := by
  have kept : t.gpmcAddress = s.gpmcAddress := by
    unfold written at done
    grind
  have bank : t.regBankAddress = s.regBankAddress := by rw [regBankAddress, kept, regBankAddress]
  have file : t.regFileAddress = s.regFileAddress := by rw [regFileAddress, kept, regFileAddress]
  rw [written, bank, file]
  unfold written at done
  cases decoded : Region.ofBank s.regBankAddress with
  | none => rfl
  | some region =>
      rw [decoded] at done
      cases region with
      | version => rfl
      | led =>
          cases done
          rfl
      | fmc =>
          cases done
          rfl
      | file =>
          cases done
          simp only [Function.update_idem]
      | word =>
          by_cases small : s.regFileAddress < 2
          · simp only [if_pos small] at done ⊢
            cases done
            simp only [Function.update_idem]
          · simp only [if_neg small] at done
            cases done

/-- The edges of an access up to its data. -/
theorem Access.Edges.run_addressed {access : Access} (edges : access.Edges) (s : Design) :
    run Design.edge s (edges.addressing ++ edges.gap) =
      some { s with gpmcAddress := access.word } := by
  have addressed : run Design.edge s edges.addressing =
      some { s with gpmcAddress := access.word } :=
    run_settles _ edges.addressing_ne
      (fun pins mem => s.edge_of_addresses (edges.addresses pins mem))
      (fun pins mem => Design.edge_of_addresses _ (edges.addresses pins mem))
  have waited : run Design.edge { s with gpmcAddress := access.word } edges.gap = some _ :=
    run_of_fixed _ fun pins mem => Design.edge_of_quiet _ (edges.gap_quiet pins mem)
  exact run_append _ addressed waited

/-- An access has the effect of its data. -/
theorem Access.Edges.run_all {access : Access} (edges : access.Edges)
    (transferred : run Design.edge { s with gpmcAddress := access.word } edges.data = some t) :
    run Design.edge s edges.all = some t := by
  have ended : run Design.edge t edges.rest = some t :=
    run_of_fixed _ fun pins mem => t.edge_of_quiet (edges.rest_quiet pins mem)
  exact run_append _ (run_append _ (edges.run_addressed s) transferred) ended

/-- An access that writes. -/
theorem run_write (edges : (Access.write word value).Edges)
    (done : Design.written { s with gpmcAddress := word } value = some t) :
    run Design.edge s edges.all = some t := by
  apply edges.run_all
  apply run_settles _ edges.data_ne
  · intro pins mem
    exact (Design.edge_of_writes _ (edges.transfers pins mem)).trans done
  · intro pins mem
    exact (Design.edge_of_writes _ (edges.transfers pins mem)).trans (Design.written_again done)

/-- The data edges of a read leave a word that the design can show. -/
theorem run_reads {data : List Pins} (nonempty : data ≠ []) (asked : ∀ pins ∈ data, pins.Reads)
    (defined : ∀ fmc, ∃ value, s.readout fmc = some value) :
    ∃ fmc value, s.readout fmc = some value ∧
      run Design.edge s data = some { s with gpmcDataO := value } := by
  induction data generalizing s with
  | nil => exact absurd rfl nonempty
  | cons pins rest ih =>
      obtain ⟨value, shown⟩ := defined pins.fmc0LaIB
      have taken : s.edge pins = some { s with gpmcDataO := value } := by
        rw [s.edge_of_reads (asked pins List.mem_cons_self), shown, Option.map_some]
      by_cases last : rest = []
      · subst last
        exact ⟨_, value, shown, (run_cons_eq_some_iff _).mpr ⟨_, taken, rfl⟩⟩
      · obtain ⟨fmc, word, later, finished⟩ := @ih { s with gpmcDataO := value } last
          (fun other mem => asked other (List.mem_cons_of_mem _ mem)) defined
        exact ⟨fmc, word, later, (run_cons_eq_some_iff _).mpr ⟨_, taken, finished⟩⟩

/-- An access that reads. -/
theorem run_read (edges : (Access.read word).Edges)
    (defined : ∀ fmc, ∃ value, Design.readout { s with gpmcAddress := word } fmc = some value) :
    ∃ fmc value, Design.readout { s with gpmcAddress := word } fmc = some value ∧
      run Design.edge s edges.all =
        some { s with gpmcAddress := word, gpmcDataO := value } := by
  obtain ⟨fmc, value, shown, transferred⟩ := run_reads edges.data_ne edges.transfers defined
  exact ⟨fmc, value, shown, edges.run_all transferred⟩

end Edges

end Rhino.Gateware
