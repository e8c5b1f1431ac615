import Rhino.Binfmt.Core
import Rhino.Bytes.StringTable
import Rhino.Loader.Truncation
import Rhino.Showbof.Recovery

/-!
# The two readers of a BOF file

The loader of the kernel goes from one region to the next by `next_hwr`; `showbof`
adds up the sizes of the parts of a region.  The format ties the two together
nowhere, so the readers stay together exactly as long as each header says what the
sizes say.  Where they do, they still take the symbols from different places if the
32-bit offsets of the loader wrap around, and a name is the same for both only if it
ends in what each of them has read of the string table: behind that each goes on in
memory of its own.
-/

namespace Rhino.Showbof

open Rhino.Bof Rhino.Bytes Rhino.Hwr Rhino.Kernel Rhino.Loader Rhino.Mkbof Rhino.Transition

variable {δ ε : Type}

/-! ## What a reader tells of a symbol -/

/-- Name, mode, location and length of a symbol.  The name is known only if it ends
in the string table. -/
structure Attributes where
  name : Option (List UInt8)
  mode : ℕ
  loc : UInt32
  len : UInt32
  deriving DecidableEq

/-- The same symbol with a known name.  A name that does not end in the table
depends on the memory behind it and is the same as no other. -/
def Attributes.Same (told other : Attributes) : Prop :=
  told = other ∧ told.name.isSome

instance (told other : Attributes) : Decidable (told.Same other) :=
  inferInstanceAs (Decidable (_ ∧ _))

/-- The string at a place of a table, if it ends there. -/
def stringAt (table : List UInt8) (place : ℕ) : Option (List UInt8) :=
  (strlen table place).map fun length => slice place length table

/-- What `showbof` prints of an entry. -/
def shownAttributes (table : List UInt8) (sym : BofIoreg) : Attributes where
  name := stringAt table sym.name.toNat
  mode := sym.mode.toNat
  loc := sym.loc
  len := sym.len

/-- What the kernel keeps in a register, of whose string table it has read the first
`read` bytes. -/
def loadedAttributes (read : ℕ) (reg : Loader.Ioreg) : Attributes where
  name := stringAt (reg.strtab.take read) reg.name
  mode := reg.mode.toNat
  loc := reg.loc
  len := reg.len

theorem loadedAttributes_ioregOf (read : ℕ) (table : List UInt8) (addr : HwrAddr)
    (entry : BofIoreg) :
    loadedAttributes read (ioregOf table addr entry) = shownAttributes (table.take read) entry := by
  simp [loadedAttributes, shownAttributes, ioregOf]

/-- A string that ends in the front of a table is the same in the whole of it. -/
theorem stringAt_of_take {table name : List UInt8} {read place : ℕ}
    (found : stringAt (table.take read) place = some name) :
    stringAt table place = some name := by
  rcases Option.map_eq_some_iff.mp found with ⟨length, length_eq, rfl⟩
  rcases strlen_append length_eq (table.drop read) with ⟨inside, same⟩
  have kept := slice_append_left inside.le (table.drop read)
  rw [List.take_append_drop] at same kept
  exact Option.map_eq_some_iff.mpr ⟨length, same, kept⟩

/-! ## Both readers on one file -/

/-- A file, the host on which it is shown with what the program meets there, and the
kernel that loads it with what it meets. -/
structure Readers (δ ε : Type) where
  file : File
  order : ByteOrder
  host : Host
  shows : ShowEnv
  drivers : UInt16 → HwrDriver δ ε
  task : Task
  load : LoadEnv ε
  kernel : KernelState δ

/-- Where the next region starts, as `showbof` computes it. -/
def regionEnd (h : UInt32) (hdr : HwrHdr) : UInt32 :=
  h + (UInt32.ofNat HwrHdr.size + hdr.nrSymbol * UInt32.ofNat BofIoreg.size +
    (hdr.plOff - hdr.strtabOff) + hdr.plLen)

namespace Readers

variable (readers : Readers δ ε)

/-- The header of the file in the memory of the host. -/
def rawHdr : BofHdr :=
  BofHdr.decodeOn readers.order (slice 0 BofHdr.size readers.file)

def fendian : UInt8 :=
  readers.rawHdr.ident.getD BI_ENDIAN 0

/-- The header as `showbof` uses it. -/
def bhdr : BofHdr :=
  fixEndianBofhdr readers.order readers.rawHdr readers.fendian

/-- The exec of the file. -/
def item : ExecqItem :=
  ⟨Binfmt.prepareBinprm readers.file, readers.task⟩

/-- The loop of `PrintHWR` after `k` turns. -/
def shown (k : ℕ) : Except ShowState ShowState :=
  repeatTurns (printRegion readers.order readers.host readers.file readers.fendian readers.shows)
    ⟨readers.bhdr.bHwoff, []⟩ k

/-- The loop of `borph_load_hw` after `k` turns. -/
def loaded (k : ℕ) : Except (Halt δ) (LoadState δ) :=
  loadRegions readers.drivers readers.item readers.load readers.kernel k

/-- The string table that `PrintSymbols` reads. -/
def shownTable (h : UInt32) (hdr : HwrHdr) : List UInt8 :=
  slice (strtabFoff h hdr).toNat (strtabLen hdr).toNat readers.file

/-- What one `kernel_read` delivers of it. -/
def loadedTable (h : UInt32) (hdr : HwrHdr) : List UInt8 :=
  slice (strtabFoff h hdr).toNat (min (strtabLen hdr).toNat MAX_RW_COUNT) readers.file

/-- `showbof` gets to region `k` and reads its header. -/
structure Shows (k : ℕ) (t : ShowState) (hdr : HwrHdr) : Prop where
  chip : k < readers.bhdr.bNumchip.toNat
  reached : readers.shown k = .ok t
  read : ∃ bytes, ((fseek readers.host t.hwrFoff.toNat).bind fun pos =>
      fread readers.file pos HwrHdr.size) = some bytes ∧
    fixEndianHwrhdr readers.order (HwrHdr.decodeOn readers.order bytes) readers.fendian = hdr

/-- It also prints its symbols. -/
structure ShowsSymbols (k : ℕ) (t : ShowState) (hdr : HwrHdr) (symbols : List BofIoreg) :
    Prop extends readers.Shows k t hdr where
  printed : printSymbols readers.order readers.host readers.file readers.fendian
    (readers.shows.strtabMem k) t.hwrFoff hdr = .ok symbols

/-- The loader gets to region `k` and reads its header. -/
structure Loads (k : ℕ) (s header : LoadState δ) : Prop where
  chip : k < readers.item.bprm.buf.bNumchip.toNat
  reached : readers.loaded k = .ok s
  read : readHwrhdr readers.file (readers.load.region k) s = .ok header

/-- It also enters its symbols. -/
structure LoadsSymbols (k : ℕ) (s header r d : LoadState δ) : Prop
    extends readers.Loads k s header where
  reserved : reserveRegion readers.drivers readers.task header = .ok r
  declared : declareRegion readers.item (readers.load.region k) readers.kernel.nextInfo r = .ok d

/-- The registers that have been entered between two states, in the order of the
file. -/
def entered (r d : LoadState δ) : List Loader.Ioreg :=
  let before := (r.kernel.infos readers.kernel.nextInfo).ioreg
  let after := (d.kernel.infos readers.kernel.nextInfo).ioreg
  (after.take (after.length - before.length)).reverse

/-- For every region that both readers get to, they read the header at the same
offset, and tell the same of its symbols. -/
structure Agree : Prop where
  offset : ∀ k t hdr s header,
    readers.Shows k t hdr → readers.Loads k s header → t.hwrFoff = s.curFoff
  symbols : ∀ k t hdr symbols s header r d,
    readers.ShowsSymbols k t hdr symbols → readers.LoadsSymbols k s header r d →
      List.Forall₂ Attributes.Same
        ((readers.entered r d).map
          (loadedAttributes (strtabRead readers.file (readers.load.region k) r).2.length))
        (symbols.map (shownAttributes (readers.shownTable t.hwrFoff hdr)))

/-! ## Files on which they agree -/

/-- Region `j` of the chain ends where its header says that the next one starts. -/
def Linked (j : ℕ) : Prop :=
  let h := hdrOffset readers.file readers.item.bprm.buf.bHwoff j
  (hdrAt readers.file h).nextHwr = regionEnd h (hdrAt readers.file h)

/-- The file has the same symbols for the region at `h` where its 32-bit offsets lead
and where the offsets lead that do not wrap around, and their names end in the
string table. -/
def Settled (h : UInt32) : Prop :=
  let hdr := hdrAt readers.file h
  ∀ i < hdr.nrSymbol.toNat,
    (shownAttributes (readers.loadedTable h hdr)
        (entryIn (· % 2 ^ 32) readers.file h i)).Same
      (shownAttributes (readers.shownTable h hdr) (entryIn id readers.file h i))

/-- The headers in front of every region that both readers get to say where the next
one starts, and the symbols that both readers take are settled. -/
structure Consistent : Prop where
  links : ∀ k t hdr s header,
    readers.Shows k t hdr → readers.Loads k s header → ∀ j < k, readers.Linked j
  symbols : ∀ k t hdr symbols s header r d,
    readers.ShowsSymbols k t hdr symbols → readers.LoadsSymbols k s header r d →
      readers.Settled (hdrOffset readers.file readers.item.bprm.buf.bHwoff k)

/-- The file is marked as little-endian, `unsigned long` has at least 32 bits, and the
reads of the loader fail or deliver what the file has. -/
structure Ordinary : Prop where
  sized : BofHdr.size ≤ readers.file.length
  little : readers.fendian = BOFDATA2LSB
  long : 2 ^ 32 ≤ readers.host.ulongMax + 1
  hdr : ∀ k, (readers.load.region k).hdrIo.Whole
  strtab : ∀ k, (readers.load.region k).strtabIo.Whole
  ioreg : ∀ k i, ((readers.load.region k).ioregIo i).Whole

variable {readers}

/-! ## Headers -/

/-- Both readers take the same start from the header of the file. -/
theorem Ordinary.bHwoff (ordinary : readers.Ordinary) :
    readers.bhdr.bHwoff = readers.item.bprm.buf.bHwoff := by
  have full : (slice 0 BofHdr.size readers.file).length = BofHdr.size := by
    rw [slice_length]
    exact min_eq_left ordinary.sized
  have shown : readers.bhdr.bHwoff = readers.order.convert32 .little readers.rawHdr.bHwoff := by
    rw [bhdr, ordinary.little]
    rfl
  have loaded : readers.item.bprm.buf = BofHdr.decode (slice 0 BofHdr.size readers.file) :=
    Binfmt.prepareBinprm_buf ordinary.sized
  rw [shown, loaded]
  exact ByteOrder.convert32_at32 _ _ (by rw [full]; decide)

/-- `showbof` reads the header that stands at its offset. -/
theorem Shows.found {k : ℕ} {t : ShowState} {hdr : HwrHdr} (little : readers.fendian = BOFDATA2LSB)
    (shows : readers.Shows k t hdr) :
    t.hwrFoff.toNat ≤ readers.host.ulongMax / 2 ∧
      (slice t.hwrFoff.toNat HwrHdr.size readers.file).length = HwrHdr.size ∧
      hdr = hdrAt readers.file t.hwrFoff := by
  rcases shows.read with ⟨bytes, read, rfl⟩
  rcases seek_fread_eq_some_iff.mp read with ⟨seek, rfl, full⟩
  rw [little, fixEndianHwrhdr_little readers.order full]
  exact ⟨seek, full, rfl⟩

/-- So does the loader, if the file has it. -/
theorem Loads.found {k : ℕ} {s header : LoadState δ} (whole : (readers.load.region k).hdrIo.Whole)
    (loads : readers.Loads k s header)
    (full : (slice s.curFoff.toNat HwrHdr.size readers.file).length = HwrHdr.size) :
    header.hwrhdr = hdrAt readers.file s.curFoff ∧
      header.curFoff = s.curFoff + UInt32.ofNat HwrHdr.size := by
  rcases readHwrhdr_ok loads.read with ⟨hwrhdr_eq, curFoff_eq, -⟩
  have read := kernelRead_whole whole (by decide) (served_of_readHwrhdr loads.read).2
  refine ⟨?_, curFoff_eq⟩
  rw [hwrhdr_eq, read, overlay_of_length_le]
  · rfl
  · rw [full, HwrHdr.encode_length]

/-- Behind a region `showbof` goes on where its parts end. -/
theorem exists_shows_of_next {k : ℕ} {next : ShowState} (chip : k < readers.bhdr.bNumchip.toNat)
    (reached : readers.shown (k + 1) = .ok next) :
    ∃ t hdr, readers.Shows k t hdr ∧ next.hwrFoff = regionEnd t.hwrFoff hdr := by
  rcases repeatTurns_succ_eq_ok_iff.mp reached with ⟨t, before, taken⟩
  unfold printRegion at taken
  split at taken
  · cases taken
  · next bytes read =>
    refine ⟨t, _, ⟨chip, before, bytes, read, rfl⟩, ?_⟩
    dsimp only at taken
    split at taken
    · cases taken
    · split at taken
      · cases taken
        rfl
      · cases taken

/-- The loader goes on where the header says. -/
theorem exists_loads_of_next {k : ℕ} {next : LoadState δ}
    (chip : k < readers.item.bprm.buf.bNumchip.toNat)
    (reached : readers.loaded (k + 1) = .ok next) :
    ∃ s header, readers.Loads k s header ∧ next.curFoff = header.hwrhdr.nextHwr := by
  rcases repeatTurns_succ_eq_ok_iff.mp reached with ⟨s, before, taken⟩
  rcases bind_eq_ok_iff.mp taken with ⟨r, prepared, taken⟩
  rcases bind_eq_ok_iff.mp taken with ⟨d, declared, configured⟩
  rcases bind_eq_ok_iff.mp prepared with ⟨header, read, reserved⟩
  refine ⟨s, header, ⟨chip, before, read⟩, ?_⟩
  rcases (declared_of_ok declared).hwrhdr with ⟨left, hwrhdr_eq⟩
  rw [(configureRegion_kernel configured).2, hwrhdr_eq, (reserveRegion_ok reserved).2.1]

/-- At the same offset both readers find the same header. -/
theorem hdr_of_same (ordinary : readers.Ordinary) {k : ℕ} {t : ShowState} {hdr : HwrHdr}
    {s header : LoadState δ} (shows : readers.Shows k t hdr) (loads : readers.Loads k s header)
    (same : t.hwrFoff = s.curFoff) :
    hdr = hdrAt readers.file t.hwrFoff ∧ header.hwrhdr = hdrAt readers.file t.hwrFoff ∧
      header.curFoff = t.hwrFoff + UInt32.ofNat HwrHdr.size := by
  rcases shows.found ordinary.little with ⟨-, full, hdr_eq⟩
  rw [same] at full hdr_eq ⊢
  exact ⟨hdr_eq, loads.found (ordinary.hdr k) full⟩

/-- As long as the regions are linked, both readers follow the chain. -/
theorem offset_of_linked (ordinary : readers.Ordinary) {k : ℕ} {t : ShowState} {s : LoadState δ}
    (shownChip : k ≤ readers.bhdr.bNumchip.toNat)
    (loadedChip : k ≤ readers.item.bprm.buf.bNumchip.toNat)
    (linked : ∀ j < k, readers.Linked j) (shown : readers.shown k = .ok t)
    (loaded : readers.loaded k = .ok s) :
    t.hwrFoff = hdrOffset readers.file readers.item.bprm.buf.bHwoff k ∧
      s.curFoff = hdrOffset readers.file readers.item.bprm.buf.bHwoff k := by
  induction k generalizing t s with
  | zero =>
      cases shown
      cases loaded
      exact ⟨ordinary.bHwoff, rfl⟩
  | succ k ih =>
      rcases exists_shows_of_next shownChip shown with ⟨t, hdr, shows, t_eq⟩
      rcases exists_loads_of_next loadedChip loaded with ⟨s, header, loads, s_eq⟩
      rcases ih shows.chip.le loads.chip.le (fun j lt => linked j (Nat.lt_succ_of_lt lt))
        shows.reached loads.reached with ⟨shownAt, loadedAt⟩
      rcases hdr_of_same ordinary shows loads (shownAt.trans loadedAt.symm) with
        ⟨hdr_eq, header_eq, -⟩
      rw [shownAt] at hdr_eq header_eq t_eq
      rw [t_eq, s_eq, hdr_eq, header_eq]
      exact ⟨(linked k (Nat.lt_succ_self k)).symm, rfl⟩

/-- The region that both readers are at is the one of the chain. -/
theorem chained_of_links (ordinary : readers.Ordinary) {k : ℕ} {t : ShowState} {hdr : HwrHdr}
    {s header : LoadState δ} (shows : readers.Shows k t hdr) (loads : readers.Loads k s header)
    (linked : ∀ j < k, readers.Linked j) :
    t.hwrFoff = hdrOffset readers.file readers.item.bprm.buf.bHwoff k ∧ t.hwrFoff = s.curFoff := by
  rcases offset_of_linked ordinary shows.chip.le loads.chip.le linked shows.reached
    loads.reached with ⟨shownAt, loadedAt⟩
  exact ⟨shownAt, shownAt.trans loadedAt.symm⟩

/-- Readers that agree on all offsets have found every region linked. -/
theorem Agree.links (agree : readers.Agree) (ordinary : readers.Ordinary) {k : ℕ}
    {t : ShowState} {hdr : HwrHdr} {s header : LoadState δ} (shows : readers.Shows k t hdr)
    (loads : readers.Loads k s header) : ∀ j < k, readers.Linked j := by
  induction k generalizing t hdr s header with
  | zero =>
      intro j none
      contradiction
  | succ k ih =>
      have same := agree.offset (k + 1) t hdr s header shows loads
      rcases exists_shows_of_next (Nat.lt_of_succ_lt shows.chip) shows.reached with
        ⟨t, hdr, shows, t_eq⟩
      rcases exists_loads_of_next (Nat.lt_of_succ_lt loads.chip) loads.reached with
        ⟨s, header, loads, s_eq⟩
      have linked := ih shows loads
      rcases offset_of_linked ordinary shows.chip.le loads.chip.le linked shows.reached
        loads.reached with ⟨shownAt, loadedAt⟩
      rcases hdr_of_same ordinary shows loads (shownAt.trans loadedAt.symm) with
        ⟨hdr_eq, header_eq, -⟩
      rw [t_eq, s_eq, hdr_eq, header_eq, shownAt] at same
      intro j lt
      rcases Nat.lt_succ_iff_lt_or_eq.mp lt with before | rfl
      · exact linked j before
      · exact same.symm

/-! ## Symbols -/

/-- The symbols that a region loop prints are those behind its header. -/
theorem eq_map_of_printed {order : ByteOrder} {file : File} {base count : ℕ}
    {symbols : List BofIoreg}
    (finished : repeatTurns (printSymbol order file BOFDATA2LSB base) [] count = .ok symbols) :
    symbols = ((List.range count).map fun i =>
        BofIoreg.decode (slice (base + BofIoreg.size * i) BofIoreg.size file)) ∧
      ∀ i < count, (slice (base + BofIoreg.size * i) BofIoreg.size file).length =
        BofIoreg.size := by
  apply repeatTurns_invariant (fun count symbols => symbols = ((List.range count).map fun i =>
      BofIoreg.decode (slice (base + BofIoreg.size * i) BofIoreg.size file)) ∧
    ∀ i < count, (slice (base + BofIoreg.size * i) BofIoreg.size file).length = BofIoreg.size)
    _ _ finished
  · exact ⟨rfl, fun i none => absurd none (Nat.not_lt_zero i)⟩
  · rintro turn symbols next ⟨symbols_eq, full⟩ taken
    rcases (printSymbol_eq_ok_iff order file base).mp taken with ⟨sym, found, rfl⟩
    have length_eq := BofIoreg.encode_length sym
    rw [← found] at length_eq
    constructor
    · rw [List.range_succ, List.map_append, ← symbols_eq, List.map_singleton,
        (BofIoreg.decode_eq_iff length_eq).mpr found]
    · intro i lt
      rcases Nat.lt_succ_iff_lt_or_eq.mp lt with before | rfl
      · exact full i before
      · exact length_eq

/-- What `PrintSymbols` has found if it comes to its end. -/
structure SymbolsShown (file : File) (h : UInt32) (hdr : HwrHdr) (symbols : List BofIoreg) :
    Prop where
  symbols : symbols = (List.range hdr.nrSymbol.toNat).map (entryIn id file h)
  strtab : hdr.nrSymbol ≠ 0 → (slice (strtabFoff h hdr).toNat (strtabLen hdr).toNat file).length =
    (strtabLen hdr).toNat
  entries : ∀ i < hdr.nrSymbol.toNat,
    (slice (h.toNat + HwrHdr.size + BofIoreg.size * i) BofIoreg.size file).length = BofIoreg.size

theorem symbolsShown_of_printed {order : ByteOrder} {host : Host} {file : File} {mem : Bool}
    {h : UInt32} {hdr : HwrHdr} {symbols : List BofIoreg} (long : 2 ^ 32 ≤ host.ulongMax + 1)
    (seekable : h.toNat ≤ host.ulongMax / 2)
    (printed : printSymbols order host file BOFDATA2LSB mem h hdr = .ok symbols) :
    SymbolsShown file h hdr symbols := by
  have base_eq : symtabFoff host h = h.toNat + HwrHdr.size := by
    rw [symtabFoff, HwrHdr.size]
    apply Nat.mod_eq_of_lt
    omega
  unfold printSymbols at printed
  split at printed
  · next none =>
    cases printed
    constructor
    · rw [none]
      rfl
    · exact fun some => absurd none some
    · intro i lt
      rw [none] at lt
      contradiction
  · split at printed
    · cases printed
    · split at printed
      · cases printed
      · next strtab read =>
        rcases seek_fread_eq_some_iff.mp read with ⟨-, rfl, full⟩
        unfold fseek at printed
        split at printed
        · cases printed
        · next base inside =>
          split at inside
          · cases inside
            rw [base_eq] at printed
            rcases eq_map_of_printed printed with ⟨symbols_eq, entries⟩
            exact ⟨symbols_eq, fun _ => full, entries⟩
          · cases inside

/-- The registers that the loader enters for a region. -/
theorem LoadsSymbols.entered_eq {k : ℕ} {s header r d : LoadState δ}
    (loads : readers.LoadsSymbols k s header r d) :
    (readers.entered r d).map
        (loadedAttributes (strtabRead readers.file (readers.load.region k) r).2.length) =
      (List.range r.hwrhdr.nrSymbol.toNat).map fun i =>
        shownAttributes (strtabRead readers.file (readers.load.region k) r).2
          (entryAt readers.file (readers.load.region k) r.curFoff i) := by
  rcases declareRegion_entered loads.declared with ⟨strtab, retval, ok, -, ioreg_eq, -⟩
  rw [loadStrtab_ok ok] at ioreg_eq
  rw [entered, ioreg_eq, List.length_append, Nat.add_sub_cancel, List.take_left',
    List.reverse_reverse, List.map_map]
  · apply List.map_congr_left
    intro i _
    rw [Function.comp_apply, loadedAttributes_ioregOf, tableAt, overlay, List.take_left']
    · rfl
    · rfl
  · rfl

section Region

variable {k : ℕ} {t : ShowState} {hdr : HwrHdr} {symbols : List BofIoreg}
  {s header r d : LoadState δ}

/-- The loader reads the string table that `showbof` reads, up to the most that one
read delivers. -/
theorem strtabRead_eq (ordinary : readers.Ordinary) (loads : readers.LoadsSymbols k s header r d)
    (hwrhdr_eq : r.hwrhdr = { hdr with addr := r.hwrhdr.addr })
    (curFoff_eq : r.curFoff = t.hwrFoff + UInt32.ofNat HwrHdr.size) :
    (strtabRead readers.file (readers.load.region k) r).2 =
      readers.loadedTable t.hwrFoff hdr := by
  have len_eq : Loader.strtabLen r.hwrhdr = strtabLen hdr := by
    rw [hwrhdr_eq]
    rfl
  have loaded := (readable_of_declared loads.declared).1
  have short := loaded.small
  rw [len_eq] at short
  rw [strtabRead, curFoff_eq, len_eq, hwrhdr_eq]
  exact kernelRead_capped (ordinary.strtab k) (kernelRead_nonneg short loaded.readable)

/-- The loader reads the entries at the 32-bit offsets. -/
theorem entryAt_eq (ordinary : readers.Ordinary) (loads : readers.LoadsSymbols k s header r d)
    (hwrhdr_eq : r.hwrhdr = { hdr with addr := r.hwrhdr.addr })
    (curFoff_eq : r.curFoff = t.hwrFoff + UInt32.ofNat HwrHdr.size)
    (shown : SymbolsShown readers.file t.hwrFoff hdr symbols) {i : ℕ}
    (lt : i < hdr.nrSymbol.toNat) :
    entryAt readers.file (readers.load.region k) r.curFoff i =
      entryIn (· % 2 ^ 32) readers.file t.hwrFoff i := by
  have nrSymbol_eq : r.hwrhdr.nrSymbol = hdr.nrSymbol := by rw [hwrhdr_eq]
  have readable := (readable_of_declared loads.declared).2 i (by rwa [nrSymbol_eq])
  have full : (slice ((t.hwrFoff.toNat + HwrHdr.size + BofIoreg.size * i) % 2 ^ 32)
      BofIoreg.size readers.file).length = BofIoreg.size := by
    have entry := shown.entries i lt
    have below := Nat.mod_le (t.hwrFoff.toNat + HwrHdr.size + BofIoreg.size * i) (2 ^ 32)
    rw [slice_length] at entry ⊢
    omega
  rw [curFoff_eq]
  apply entryAt_full
  rw [toNat_entryOffset, kernelRead_whole (ordinary.ioreg k i) (by decide)
    (kernelRead_nonneg (by decide) readable), full]

end Region

/-- The table that the loader has read is the front of the one that `showbof` has. -/
theorem loadedTable_eq_take (h : UInt32) (hdr : HwrHdr) :
    readers.loadedTable h hdr = (readers.shownTable h hdr).take MAX_RW_COUNT := by
  rw [loadedTable, shownTable, slice, slice, List.take_take, min_comm]

/-- Symbols of a region whose header both readers read at the same offset. -/
theorem same_iff_settled (ordinary : readers.Ordinary) {k : ℕ} {t : ShowState} {hdr : HwrHdr}
    {symbols : List BofIoreg} {s header r d : LoadState δ}
    (shows : readers.ShowsSymbols k t hdr symbols) (loads : readers.LoadsSymbols k s header r d)
    (same : t.hwrFoff = s.curFoff) :
    List.Forall₂ Attributes.Same
        ((readers.entered r d).map
          (loadedAttributes (strtabRead readers.file (readers.load.region k) r).2.length))
        (symbols.map (shownAttributes (readers.shownTable t.hwrFoff hdr))) ↔
      readers.Settled t.hwrFoff := by
  rcases hdr_of_same ordinary shows.toShows loads.toLoads same with
    ⟨hdr_eq, header_eq, headerFoff_eq⟩
  rcases reserveRegion_ok loads.reserved with ⟨-, reserved_eq, reservedFoff_eq, -⟩
  have hwrhdr_eq : r.hwrhdr = { hdr with addr := r.hwrhdr.addr } := by
    rw [hdr_eq, ← header_eq]
    exact reserved_eq
  have nrSymbol_eq : r.hwrhdr.nrSymbol = hdr.nrSymbol := by rw [hwrhdr_eq]
  have curFoff_eq := reservedFoff_eq.trans headerFoff_eq
  have printed := shows.printed
  rw [ordinary.little] at printed
  have shown := symbolsShown_of_printed ordinary.long (shows.found ordinary.little).1 printed
  rw [loads.entered_eq, shown.symbols, nrSymbol_eq,
    strtabRead_eq ordinary loads hwrhdr_eq curFoff_eq, List.map_map, List.forall₂_map_left_iff,
    List.forall₂_map_right_iff, List.forall₂_same, Settled, ← hdr_eq]
  constructor
  · intro told i lt
    have entry := told i (List.mem_range.mpr lt)
    rwa [entryAt_eq ordinary loads hwrhdr_eq curFoff_eq shown lt] at entry
  · intro settled i mem
    have lt := List.mem_range.mp mem
    rw [entryAt_eq ordinary loads hwrhdr_eq curFoff_eq shown lt]
    exact settled i lt

/-- Where no offset wraps around it is enough that the names end in what one read
delivers of the string table. -/
theorem settled_of_ended {h : UInt32} (unwrapped : Unwrapped readers.file h)
    (ended : ∀ i < (hdrAt readers.file h).nrSymbol.toNat,
      (stringAt (readers.loadedTable h (hdrAt readers.file h))
        (entryIn id readers.file h i).name.toNat).isSome) : readers.Settled h := by
  intro i lt
  have entry_eq : entryIn (· % 2 ^ 32) readers.file h i = entryIn id readers.file h i := by
    rw [entryIn, entryIn, Nat.mod_eq_of_lt (unwrapped i lt.le), id_eq]
  rcases Option.isSome_iff_exists.mp (ended i lt) with ⟨name, found⟩
  have whole := found
  rw [loadedTable_eq_take] at whole
  refine ⟨?_, ?_⟩
  · simp only [entry_eq, shownAttributes, found, stringAt_of_take whole]
  · rw [entry_eq]
    exact ended i lt

/-- The readers agree on a file exactly if its headers and symbols are consistent. -/
theorem agree_iff_consistent (ordinary : readers.Ordinary) :
    readers.Agree ↔ readers.Consistent := by
  constructor
  · intro agree
    constructor
    · intro k t hdr s header shows loads
      exact agree.links ordinary shows loads
    · intro k t hdr symbols s header r d shows loads
      rcases chained_of_links ordinary shows.toShows loads.toLoads
        (agree.links ordinary shows.toShows loads.toLoads) with ⟨chained, same⟩
      rw [← chained]
      apply (same_iff_settled ordinary shows loads same).mp
      exact agree.symbols k t hdr symbols s header r d shows loads
  · intro consistent
    constructor
    · intro k t hdr s header shows loads
      exact (chained_of_links ordinary shows loads
        (consistent.links k t hdr s header shows loads)).2
    · intro k t hdr symbols s header r d shows loads
      rcases chained_of_links ordinary shows.toShows loads.toLoads
        (consistent.links k t hdr s header shows.toShows loads.toLoads) with ⟨chained, same⟩
      apply (same_iff_settled ordinary shows loads same).mpr
      rw [chained]
      exact consistent.symbols k t hdr symbols s header r d shows loads

end Readers

/-- The file is shown and loaded where nothing goes wrong. -/
def calmReaders (file : File) : Readers RhinoDev ConfigRun where
  file := file
  order := .little
  host := sampleHost
  shows := calmShow
  drivers := rhinoPlatform.drivers
  task := 1
  load := calmLoad smoothConfig
  kernel := bootKernel

theorem calmReaders_ordinary {file : File} (sized : BofHdr.size ≤ file.length)
    (little : (calmReaders file).fendian = BOFDATA2LSB) : (calmReaders file).Ordinary where
  sized := sized
  little := little
  long := by
    change 2 ^ 32 ≤ sampleHost.ulongMax + 1
    decide
  hdr := fun _ => le_refl MAX_RW_COUNT
  strtab := fun _ => le_refl MAX_RW_COUNT
  ioreg := fun _ _ => le_refl MAX_RW_COUNT

/-- A file with one symbol that `mkbof` has written. -/
def madeFile : File :=
  bofFileOn .little (initialGlobals HAC_RHINO.toUInt32) (bareElf ELFDATA2LSB) [0xaa]
    ⟨[ledSymbol], 8⟩

/-- Both readers take its symbol. -/
theorem takes_made_symbol : ∃ t hdr symbols s header r d,
    (calmReaders madeFile).ShowsSymbols 0 t hdr symbols ∧
      (calmReaders madeFile).LoadsSymbols 0 s header r d ∧ symbols.length = 1 := by
  have count : (printSymbols .little sampleHost madeFile (calmReaders madeFile).fendian true
      (calmReaders madeFile).bhdr.bHwoff
      (fixEndianHwrhdr .little (HwrHdr.decodeOn .little (slice 104 HwrHdr.size madeFile))
        (calmReaders madeFile).fendian)).toOption.map List.length = some 1 := by
    decide +kernel
  have configured : ((calmReaders madeFile).loaded 1).toOption.map (fun _ => ()) = some () := by
    decide +kernel
  rcases exists_ok_of_map_toOption count with ⟨symbols, printed, count⟩
  rcases exists_ok_of_map_toOption configured with ⟨next, loaded, -⟩
  unfold Readers.loaded loadRegions at loaded
  rcases repeatTurns_succ_eq_ok_iff.mp loaded with ⟨s, before, taken⟩
  rcases bind_eq_ok_iff.mp taken with ⟨r, prepared, taken⟩
  rcases bind_eq_ok_iff.mp taken with ⟨d, declared, -⟩
  rcases bind_eq_ok_iff.mp prepared with ⟨header, read, reserved⟩
  refine ⟨_, _, symbols, s, header, r, d, ⟨⟨by decide +kernel, rfl, _, ?_, rfl⟩, printed⟩,
    ⟨⟨by decide +kernel, before, read⟩, reserved, declared⟩, count⟩
  exact seek_fread_eq_some_iff.mpr ⟨by decide +kernel, by decide +kernel, by decide +kernel⟩

/-- Both readers take its symbol, and agree on the file. -/
theorem agree_on_made_file :
    (∃ t hdr symbols s header r d,
      (calmReaders madeFile).ShowsSymbols 0 t hdr symbols ∧
      (calmReaders madeFile).LoadsSymbols 0 s header r d ∧ symbols.length = 1) ∧
    (calmReaders madeFile).Agree := by
  constructor
  · exact takes_made_symbol
  apply (Readers.agree_iff_consistent
    (calmReaders_ordinary (by decide +kernel) (by decide +kernel))).mpr
  have single : (calmReaders madeFile).bhdr.bNumchip.toNat = 1 := by decide +kernel
  constructor
  · intro k t hdr s header shows loads j lt
    have first := shows.chip
    rw [single] at first
    omega
  · intro k t hdr symbols s header r d shows loads
    have first := shows.chip
    rw [single] at first
    obtain rfl : k = 0 := Nat.lt_one_iff.mp first
    apply Readers.settled_of_ended
    · unfold Unwrapped
      decide +kernel
    · decide +kernel

/-- A region whose header gives the region itself for the next one. -/
def strayRegion : HwrHdr :=
  { loneRegion with nextHwr := 52 }

/-- A file of two chips with this region in front. -/
def strayFile : File :=
  { sampleHdr 2 with
    ident := [0x19, 66, 79, 70, 0, 1, 0, 0, 0, 0, 0, 0, 0, 0, 0, 0] : BofHdr }.encode ++
    strayRegion.encode ++ [0xaa] ++ List.replicate 28 0

/-- The readers take the header of the second region from different places. -/
theorem readers_part_at_stray_link :
    (calmReaders strayFile).Ordinary ∧ ¬ (calmReaders strayFile).Agree := by
  refine ⟨calmReaders_ordinary (by decide +kernel) (by decide +kernel), ?_⟩
  intro agree
  have shownAt : ((calmReaders strayFile).shown 1).toOption.map ShowState.hwrFoff = some 81 := by
    decide +kernel
  have loadedAt : ((calmReaders strayFile).loaded 1).toOption.map LoadState.curFoff = some 52 := by
    decide +kernel
  rcases exists_ok_of_map_toOption shownAt with ⟨t, shown, t_eq⟩
  rcases exists_ok_of_map_toOption loadedAt with ⟨s, loaded, s_eq⟩
  have shows : (calmReaders strayFile).Shows 1 t _ :=
    ⟨by decide +kernel, shown, _, seek_fread_eq_some_iff.mpr
      ⟨by rw [t_eq]; decide, rfl, by rw [t_eq]; decide +kernel⟩, rfl⟩
  have loads : (calmReaders strayFile).Loads 1 s _ :=
    ⟨by decide +kernel, loaded, readHwrhdr_served (by rw [s_eq]; decide) rfl
      (Int.natCast_nonneg _) rfl⟩
  have same := agree.offset 1 t _ s _ shows loads
  rw [t_eq, s_eq] at same
  exact absurd same (by decide)

end Rhino.Showbof
