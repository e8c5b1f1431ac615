import Rhino.Bytes.LittleEndian
import Rhino.Transition.Fallible

/-!
# Reading a file from a memory card

The first boot loader finds the second one in the root directory of a FAT file system:
`omap_mmc_read_sect` of `cpu/omap3/mmc.c` reads sectors, and `fs/fat/fat.c` has the rest,
from the partition table to the contents of the file.

A buffer is a memory of its own, except the one that the file is loaded into.  What a read
returns is passed on as the source does it: nothing between the card and `do_fat_read`
notices that a sector could not be read, and the buffer then keeps what it held.  Loops
that need not end are given a number of turns.
-/

namespace Rhino.Fat

open Rhino.Bytes Rhino.Transition

abbrev Memory := ℕ → UInt8

/-! ## The card -/

inductive CardMode where
  | sector
  | byte
  deriving DecidableEq, Repr

/-- The selected card: how it is addressed, and what `MMC_CMD17` and the polled read behind
it return and store for an argument. -/
structure Card where
  mode : CardMode
  readSingle : UInt32 → UInt8 × List UInt8

def MMCSD_SECTOR_SIZE : UInt32 := 512

/-- The loop of `omap_mmc_read_sect`. -/
def readSectors (card : Card) (secIncVal : UInt32) :
    ℕ → UInt32 → Memory → ℕ → UInt8 × Memory
  | 0, _, memory, _ => (1, memory)
  | numSecVal + 1, argument, memory, outputBuf =>
      let (err, bytes) := card.readSingle argument
      let memory := storeAt memory outputBuf bytes
      if err ≠ 1 then (err, memory)
      else readSectors card secIncVal numSecVal (argument + secIncVal) memory
        (outputBuf + MMCSD_SECTOR_SIZE.toNat)

/-- `omap_mmc_read_sect`. -/
def omapMmcReadSect (card : Card) (startSec numBytes : UInt32) (memory : Memory)
    (outputBuf : ℕ) : UInt8 × Memory :=
  let numSecVal := (numBytes + (MMCSD_SECTOR_SIZE - 1)) / MMCSD_SECTOR_SIZE
  if numSecVal = 0 then (1, memory)
  else
    match card.mode with
    | .sector => readSectors card 1 numSecVal.toNat startSec memory outputBuf
    | .byte => readSectors card MMCSD_SECTOR_SIZE numSecVal.toNat
        (startSec * MMCSD_SECTOR_SIZE) memory outputBuf

/-- `mmc_bread`. -/
def mmcBread (card : Card) (blknr blkcnt : UInt32) (memory : Memory) (dst : ℕ) :
    UInt8 × Memory :=
  omapMmcReadSect card blknr (blkcnt * MMCSD_SECTOR_SIZE) memory dst

/-- `cur_dev`, `part_offset`, and what buffers on the stack hold before they are read
into. -/
structure Disk where
  curDev : Option Card
  partOffset : UInt32
  stack : Memory

/-- `disk_read`. -/
def diskRead (disk : Disk) (startblock getsize : UInt32) (memory : Memory) (bufptr : ℕ) :
    ℤ × Memory :=
  let startblock := startblock + disk.partOffset
  match disk.curDev with
  | none => (-1, memory)
  | some card =>
      let (ret, memory) := mmcBread card startblock getsize memory bufptr
      (ret.toNat, memory)

def DOS_PART_TBL_OFFSET : ℕ := 0x1be
def DOS_PART_MAGIC_OFFSET : ℕ := 0x1fe
def DOS_FS_TYPE_OFFSET : ℕ := 0x52

/-- `fat_register_device`, with the first entry of the partition table: this configuration
has no other partition code. -/
def fatRegisterDevice (card : Card) (disk : Disk) : ℤ × Disk :=
  let disk := { disk with curDev := some card }
  let (ret, buffer) := mmcBread card 0 1 disk.stack 0
  if ret ≠ 1 then (-1, disk)
  else if buffer DOS_PART_MAGIC_OFFSET ≠ 0x55 ∨ buffer (DOS_PART_MAGIC_OFFSET + 1) ≠ 0xaa then
    (-1, disk)
  else if loadAt buffer DOS_FS_TYPE_OFFSET 3 = [70, 65, 84] then
    (0, { disk with partOffset := 0 })
  else
    (0, { disk with partOffset := u32At (loadAt buffer (DOS_PART_TBL_OFFSET + 8) 4) 0 })

/-! ## The table -/

def FS_BLOCK_SIZE : UInt32 := 512

def FATBUFBLOCKS : UInt32 := 6

inductive FatSize where
  | fat12
  | fat16
  | fat32
  deriving DecidableEq, Repr

/-- `FAT12BUFSIZE`, `FAT16BUFSIZE` and `FAT32BUFSIZE`: the entries in the cache. -/
def FatSize.bufSize : FatSize → UInt32
  | .fat12 => FS_BLOCK_SIZE * FATBUFBLOCKS * 2 / 3
  | .fat16 => FS_BLOCK_SIZE * FATBUFBLOCKS / 2
  | .fat32 => FS_BLOCK_SIZE * FATBUFBLOCKS / 4

/-- `fsdata`. -/
structure FsData where
  fatsize : FatSize
  fatlength : UInt16
  fatSect : UInt16
  rootdirSect : UInt16
  clustSize : UInt16
  dataBegin : Int16
  fatbuf : Memory
  fatbufnum : UInt32

/-- A word of sixteen bits of the cache. -/
def FsData.word (fs : FsData) (index : UInt32) : UInt16 :=
  u16At (loadAt fs.fatbuf (2 * index.toNat) 2) 0

/-- An entry of the cache. -/
def FsData.cached (fs : FsData) (offset : UInt32) : UInt32 :=
  match fs.fatsize with
  | .fat32 => u32At (loadAt fs.fatbuf (4 * offset.toNat) 4) 0
  | .fat16 => (fs.word offset).toUInt32
  | .fat12 =>
      let off16 := offset * 3 / 4
      if offset &&& 3 = 0 then (fs.word off16).toUInt32 &&& 0xfff
      else if offset &&& 3 = 1 then
        let val1 := fs.word off16 &&& 0xf000
        let val2 := fs.word (off16 + 1) &&& 0x00ff
        (val2.toUInt32 <<< 4) ||| (val1.toUInt32 >>> 12)
      else if offset &&& 3 = 2 then
        let val1 := fs.word off16 &&& 0xff00
        let val2 := fs.word (off16 + 1) &&& 0x000f
        (val2.toUInt32 <<< 8) ||| (val1.toUInt32 >>> 8)
      else ((fs.word off16).toUInt32 &&& 0xfff0) >>> 4

/-- The part of `get_fatent` that reads a block of entries into the cache. -/
def fillFatbuf (disk : Disk) (fs : FsData) (bufnum : UInt32) : ℤ × FsData :=
  let fatlength := fs.fatlength.toUInt32 * FS_BLOCK_SIZE
  let startblock := bufnum * FATBUFBLOCKS + fs.fatSect.toUInt32
  let getsize := if fatlength < FATBUFBLOCKS then fatlength else FATBUFBLOCKS
  let (ret, fatbuf) := diskRead disk startblock getsize fs.fatbuf 0
  if ret < 0 then (ret, { fs with fatbuf := fatbuf })
  else (ret, { fs with fatbuf := fatbuf, fatbufnum := bufnum })

/-- `get_fatent`. -/
def getFatent (disk : Disk) (fs : FsData) (entry : UInt32) : UInt32 × FsData :=
  let bufnum := entry / fs.fatsize.bufSize
  let offset := entry - bufnum * fs.fatsize.bufSize
  if bufnum ≠ fs.fatbufnum then
    let (ret, fs) := fillFatbuf disk fs bufnum
    if ret < 0 then (0, fs) else (fs.cached offset, fs)
  else (fs.cached offset, fs)

/-! ## The contents of a file -/

/-- The place of a cluster, relative to the partition; `data_begin` may be negative. -/
def FsData.sectorOf (fs : FsData) (clustnum : UInt32) : UInt32 :=
  fs.dataBegin.toInt32.toUInt32 + clustnum * fs.clustSize.toUInt32

/-- `get_cluster`. -/
def getCluster (disk : Disk) (fs : FsData) (clustnum : UInt32) (memory : Memory) (buffer : ℕ)
    (size : UInt32) : ℤ × Memory :=
  let startsect := if clustnum > 0 then fs.sectorOf clustnum else fs.rootdirSect.toUInt32
  let idx := size / FS_BLOCK_SIZE
  let (ret, memory) := diskRead disk startsect idx memory buffer
  if ret < 0 then (-1, memory)
  else if size % FS_BLOCK_SIZE ≠ 0 then
    let (ret, tmpbuf) := diskRead disk (startsect + idx) 1 disk.stack 0
    if ret < 0 then (-1, memory)
    else (0, storeAt memory (buffer + (idx * FS_BLOCK_SIZE).toNat)
      (loadAt tmpbuf 0 (size % FS_BLOCK_SIZE).toNat))
  else (0, memory)

/-- The part of `dir_entry` that is used. -/
structure DirEntry where
  name : List UInt8
  ext : List UInt8
  attr : UInt8
  starthi : UInt16
  start : UInt16
  size : UInt32
  deriving DecidableEq, Repr

/-- The macro `START`. -/
def FsData.startOf (fs : FsData) (dent : DirEntry) : UInt32 :=
  match fs.fatsize with
  | .fat32 => dent.start.toUInt32 + (dent.starthi.toUInt32 <<< 16)
  | _ => dent.start.toUInt32

/-- The variables of `get_contents`, with the memory and the pointer into it. -/
structure Reading where
  fs : FsData
  memory : Memory
  buffer : ℕ
  filesize : UInt32
  gotsize : UInt32
  actsize : UInt32
  curclust : UInt32
  endclust : UInt32

/-- What `get_contents` returns and leaves. -/
abbrev ReadResult := ℤ × FsData × Memory

/-- A number that is no cluster to go on with. -/
def InvalidEntry (clust : UInt32) : Prop :=
  clust ≤ 0x0001 ∨ 0xfffff0 ≤ clust

instance (clust : UInt32) : Decidable (InvalidEntry clust) :=
  inferInstanceAs (Decidable (_ ∨ _))

/-- The part of the loop behind `getit`: read a run of clusters and turn to the next one. -/
def readRun (disk : Disk) (bytesperclust : UInt32) (s : Reading) : Except ReadResult Reading :=
  let (ret, memory) := getCluster disk s.fs s.curclust s.memory s.buffer s.actsize
  if ret ≠ 0 then .error (-1, s.fs, memory)
  else
    let gotsize := s.gotsize + s.actsize
    let (curclust, fs) := getFatent disk s.fs s.endclust
    if InvalidEntry curclust then .error (gotsize.toInt32.toInt, fs, memory)
    else
      .ok
        { fs := fs
          memory := memory
          buffer := s.buffer + s.actsize.toNat
          filesize := s.filesize - s.actsize
          gotsize := gotsize
          actsize := bytesperclust
          curclust := curclust
          endclust := curclust }

/-- The part of the loop that reads the last run: its whole clusters, and what is left from
the last one. -/
def readRest (disk : Disk) (bytesperclust : UInt32) (s : Reading) : ReadResult :=
  let actsize := s.actsize - bytesperclust
  let (ret, memory) := getCluster disk s.fs s.curclust s.memory s.buffer actsize
  if ret ≠ 0 then (-1, s.fs, memory)
  else
    let filesize := s.filesize - actsize
    let (ret, memory) :=
      getCluster disk s.fs s.endclust memory (s.buffer + actsize.toNat) filesize
    if ret ≠ 0 then (-1, s.fs, memory)
    else ((s.gotsize + actsize + filesize).toInt32.toInt, s.fs, memory)

/-- One test of the inner loop of `get_contents` and what follows it: the run grows by a
cluster, or it is read. -/
def contentsTurn (disk : Disk) (bytesperclust : UInt32) (s : Reading) :
    Except ReadResult Reading :=
  if s.actsize < s.filesize then
    let (newclust, fs) := getFatent disk s.fs s.endclust
    if newclust - 1 ≠ s.endclust then readRun disk bytesperclust { s with fs := fs }
    else if InvalidEntry newclust then .error (s.gotsize.toInt32.toInt, fs, s.memory)
    else
      .ok { s with
        fs := fs
        endclust := newclust
        actsize := s.actsize + bytesperclust }
  else .error (readRest disk bytesperclust s)

/-- How much of a file of `filesize` bytes is to be read; a `maxsize` of zero is no limit. -/
def readSize (filesize maxsize : UInt32) : UInt32 :=
  if 0 < maxsize ∧ maxsize < filesize then maxsize else filesize

/-- The state in which the loop of `get_contents` is entered. -/
def contentsStart (fs : FsData) (dentptr : DirEntry) (memory : Memory) (buffer : ℕ)
    (maxsize : UInt32) : Reading where
  fs := fs
  memory := memory
  buffer := buffer
  filesize := readSize dentptr.size maxsize
  gotsize := 0
  actsize := fs.clustSize.toUInt32 * FS_BLOCK_SIZE
  curclust := fs.startOf dentptr
  endclust := fs.startOf dentptr

/-- `get_contents`. -/
def getContents (disk : Disk) (fs : FsData) (dentptr : DirEntry) (memory : Memory)
    (buffer : ℕ) (maxsize : UInt32) (turns : ℕ) : Option ReadResult :=
  resultWithin (contentsTurn disk (fs.clustSize.toUInt32 * FS_BLOCK_SIZE))
    (contentsStart fs dentptr memory buffer maxsize) turns

/-! ## The root directory -/

def ATTR_VOLUME : UInt8 := 8
def ATTR_DIR : UInt8 := 16
def DELETED_FLAG : UInt8 := 0xe5
def aRING : UInt8 := 0x05
def DIRENT_SIZE : ℕ := 32
def DIRENTSPERBLOCK : ℕ := 16

def DirEntry.decode (bytes : List UInt8) : DirEntry where
  name := slice 0 8 bytes
  ext := slice 8 3 bytes
  attr := bytes.getD 11 0
  starthi := u16At bytes 20
  start := u16At bytes 26
  size := u32At bytes 28

/-- `TOLOWER`. -/
def toLower (c : UInt8) : UInt8 :=
  if 65 ≤ c ∧ c ≤ 90 then c + (97 - 65) else c

/-- `downcase`. -/
def downcase (str : List UInt8) : List UInt8 :=
  str.map toLower

/-- The characters up to a terminator or a blank. -/
def upToBlank (str : List UInt8) : List UInt8 :=
  str.takeWhile fun c => c != 0 && c != 32

/-- `get_name`: the string that it leaves in `s_name`. -/
def getName (dirent : DirEntry) : List UInt8 :=
  let base := upToBlank dirent.name
  let whole := match upToBlank dirent.ext with
    | [] => base
    | ext => base ++ 46 :: ext
  downcase (match whole with
    | [] => []
    | c :: rest =>
        if c = DELETED_FLAG then []
        else if c = aRING then 0xe5 :: rest
        else c :: rest)

/-- `ISDIRDELIM`. -/
def isDirDelim (c : UInt8) : Bool :=
  c == 47 || c == 92

/-- The loop of `do_fat_read` over the entries of a block: the entry that is looked for, none
if the search ends without it, or neither. -/
def scanEntries (fname : List UInt8) (isdir : Bool) : List DirEntry → Option (Option DirEntry)
  | [] => none
  | dentptr :: rest =>
      if dentptr.attr &&& ATTR_VOLUME ≠ 0 then scanEntries fname isdir rest
      else if dentptr.name.headD 0 = 0 then some none
      else if fname ≠ getName dentptr ∧ fname ≠ [] then scanEntries fname isdir rest
      else if isdir ∧ dentptr.attr &&& ATTR_DIR = 0 then some none
      else some (some dentptr)

/-- The entries of a block that are looked at. -/
def blockEntries (block : Memory) : List DirEntry :=
  (List.range DIRENTSPERBLOCK).map fun i =>
    DirEntry.decode (loadAt block (DIRENT_SIZE * i) DIRENT_SIZE)

/-- The variables of the search. -/
structure Search where
  fs : FsData
  block : Memory
  cursect : UInt32
  curclus : UInt32

/-- One turn of the loop over the blocks of the root directory. -/
def searchTurn (disk : Disk) (fname : List UInt8) (isdir : Bool) (s : Search) :
    Except (Option DirEntry × FsData) Search :=
  let (ret, block) := diskRead disk s.cursect s.fs.clustSize.toUInt32 s.block 0
  if ret < 0 then .error (none, s.fs)
  else
    match scanEntries fname isdir (blockEntries block) with
    | some found => .error (found, s.fs)
    | none =>
        if s.fs.fatsize ≠ .fat32 then
          .ok { s with block := block, cursect := s.cursect + 1 }
        else
          let (curclus, fs) := getFatent disk s.fs s.curclus
          .ok
            { fs := fs
              block := block
              cursect := curclus * s.fs.clustSize.toUInt32 + s.fs.dataBegin.toInt32.toUInt32
              curclus := curclus }

/-! ## The file system -/

/-- The part of `boot_sector` that is used. -/
structure BootSector where
  clusterSize : UInt8
  reserved : UInt16
  fats : UInt8
  dirEntries : UInt16
  fatLength : UInt16
  fat32Length : UInt32
  rootCluster : UInt32
  deriving DecidableEq, Repr

def BootSector.decode (block : List UInt8) : BootSector where
  clusterSize := block.getD 13 0
  reserved := u16At block 14
  fats := block.getD 16 0
  dirEntries := u16At block 17
  fatLength := u16At block 22
  fat32Length := u32At block 36
  rootCluster := u32At block 44

/-- The first `SIGNLEN` characters of `FAT12_SIGN`, `FAT16_SIGN` and `FAT32_SIGN`. -/
def FatSize.sign : FatSize → List UInt8
  | .fat12 => [70, 65, 84, 49, 50, 32, 32]
  | .fat16 => [70, 65, 84, 49, 54, 32, 32]
  | .fat32 => [70, 65, 84, 51, 50, 32, 32]

def SIGNLEN : ℕ := 7

/-- What a boot sector says: the string that tells the type is behind the fields of FAT32 or in
their place. -/
def identify (block : List UInt8) : Option (BootSector × FatSize) :=
  let bs := BootSector.decode block
  if bs.fatLength = 0 then
    if slice 82 SIGNLEN block = FatSize.fat32.sign then some (bs, .fat32) else none
  else if slice 54 SIGNLEN block = FatSize.fat12.sign then some (bs, .fat12)
  else if slice 54 SIGNLEN block = FatSize.fat16.sign then some (bs, .fat16)
  else none

/-- `read_bootsectandvi`. -/
def readBootsectandvi (disk : Disk) : Option (BootSector × FatSize) :=
  let (ret, memory) := diskRead disk 0 1 disk.stack 0
  if ret < 0 then none
  else identify (loadAt memory 0 FS_BLOCK_SIZE.toNat)

/-- The fields of `fsdata` that `do_fat_read` sets from the boot sector; most of them have
sixteen bits. -/
def mount (bs : BootSector) (fatsize : FatSize) (fatbuf : Memory) : FsData :=
  let fatlength := if fatsize = .fat32 then bs.fat32Length.toUInt16 else bs.fatLength
  let rootdirSect := bs.reserved + fatlength * bs.fats.toUInt16
  let clustSize := bs.clusterSize.toUInt16
  let rootdirSize := UInt16.ofNat (bs.dirEntries.toNat * DIRENT_SIZE / FS_BLOCK_SIZE.toNat)
  { fatsize := fatsize
    fatlength := fatlength
    fatSect := bs.reserved
    rootdirSect := rootdirSect
    clustSize := clustSize
    dataBegin := (if fatsize = .fat32 then rootdirSect - clustSize * 2
      else rootdirSect + rootdirSize - clustSize * 2).toInt16
    fatbuf := fatbuf
    fatbufnum := 0xffffffff }

/-- The buffers of `do_fat_read`: `fatbuf` and `do_fat_read_block`. -/
structure Buffers where
  fatbuf : Memory
  block : Memory

/-- `file_fat_read`: `do_fat_read` with `LS_NO`.  Its `get_dentfromdir` finds nothing, so that
a file in a subdirectory is never read. -/
def fileFatRead (disk : Disk) (buffers : Buffers) (filename : List UInt8) (memory : Memory)
    (buffer : ℕ) (maxsize : UInt32) (turns : ℕ) : Option (ℤ × Memory) :=
  match readBootsectandvi disk with
  | none => some (-1, memory)
  | some (bs, fatsize) =>
      let fs := mount bs fatsize buffers.fatbuf
      let path := downcase (filename.dropWhile isDirDelim)
      if path = [] then some (-1, memory)
      else
        let isdir := path.any isDirDelim
        let fname := path.takeWhile fun c => !isDirDelim c
        let start : Search := ⟨fs, buffers.block, fs.rootdirSect.toUInt32, bs.rootCluster⟩
        match resultWithin (searchTurn disk fname isdir) start turns with
        | none => none
        | some (none, _) => some (-1, memory)
        | some (some dentptr, fs) =>
            if isdir then some (-1, memory)
            else (getContents disk fs dentptr memory buffer maxsize turns).map fun result =>
              (result.1, result.2.2)

end Rhino.Fat
