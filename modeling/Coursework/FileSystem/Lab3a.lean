import Coursework.Text.Format
import Coursework.Python.Text

/-!
# The rows of the file system dump

The `INODE` and the directory rows that `lab3a.c` prints, with the buffers in which their
fields are formatted. `none` is a write behind the end of a buffer, a failed assertion or a read
behind the end of a structure; the structures have the fields these rows are made from.
Vocabulary and scope: `Coursework.Text.Format`.
-/

namespace Coursework.FileSystem

open Python Stdio

/-- `struct ext2_inode`. -/
structure Ext2Inode where
  iMode : UInt16
  iUid : UInt16
  iSize : UInt32
  iAtime : UInt32
  iCtime : UInt32
  iMtime : UInt32
  iGid : UInt16
  iLinksCount : UInt16
  iBlocks : UInt32
  iBlock : Vector UInt32 15
  deriving DecidableEq

/-- `struct ext2_dir_entry`; a character of the name is a byte, and the size of the structure is
rounded up, so there is a byte of padding behind the name. -/
structure Ext2DirEntry where
  inode : UInt32
  recLen : UInt16
  nameLen : UInt8
  name : Vector Char 255
  padding : Char
  deriving DecidableEq

/-- The name of an entry. -/
def Ext2DirEntry.fileName (entry : Ext2DirEntry) : Text :=
  entry.name.toList.take entry.nameLen.toNat

/-- The bytes from the name to the end of the structure. -/
def Ext2DirEntry.nameBytes (entry : Ext2DirEntry) : List Char :=
  entry.name.toList ++ [entry.padding]

/-- `BLOCK_PTR_LEN`. -/
def blockPtrLen : UInt32 := 60

/-- The bits of `i_mode` that `S_ISDIR`, `S_ISREG` and `S_ISLNK` compare. -/
def formatMask : UInt16 := 0xF000

/-- `file_type`. -/
def fileType (iMode : UInt16) : Char :=
  if iMode &&& formatMask = 0x4000 then 'd'
  else if iMode &&& formatMask = 0x8000 then 'f'
  else if iMode &&& formatMask = 0xA000 then 's'
  else '?'

/-- The inode is allocated, so its row is printed. -/
def Ext2Inode.IsAllocated (inode : Ext2Inode) : Prop :=
  inode.iMode ≠ 0 ∧ inode.iLinksCount ≠ 0

/-- `print_blk_addrs`. -/
def Ext2Inode.PrintsBlkAddrs (inode : Ext2Inode) : Prop :=
  fileType inode.iMode = 'f' ∨ fileType inode.iMode = 'd' ∨
    fileType inode.iMode = 's' ∧ blockPtrLen < inode.iSize

instance (inode : Ext2Inode) : Decidable inode.IsAllocated :=
  inferInstanceAs (Decidable (_ ∧ _))

instance (inode : Ext2Inode) : Decidable inode.PrintsBlkAddrs :=
  inferInstanceAs (Decidable (_ ∨ _ ∨ _))

/-- The date in `get_time`. -/
def dateText (info : Tm) : Text :=
  decimalPadded 2 (info.tmMon + 1) ++ '/' :: decimalPadded 2 info.tmMday ++
    '/' :: decimal (info.tmYear % 100 : Nat) ++ ' ' :: decimalPadded 2 info.tmHour ++
    ':' :: decimalPadded 2 info.tmMin ++ ':' :: decimalPadded 2 info.tmSec

/-- `get_time`, whose assertion says that the text fits. -/
def getTime (rawtime : UInt32) : Option Text :=
  sprintf 32 (dateText (gmtime rawtime.toNat) ++ ',' :: " GMT".toList)

/-- Format a block address in `blk_addr` and append it to `blk_addrs`. -/
def appendBlkAddr (blkAddrs text : Text) : Option Text := do
  let blkAddr ← sprintf 8 text
  strcat 128 blkAddrs blkAddr

/-- `blk_addrs` after the loop over the block addresses; no comma follows the last one. -/
def blkAddrs (iBlock : Vector UInt32 15) : Option Text := do
  let blkAddrs ← (iBlock.toList.take 14).foldlM
    (fun blkAddrs block => appendBlkAddr blkAddrs (decimal (asInt block) ++ ",".toList)) []
  appendBlkAddr blkAddrs (decimal (asInt iBlock[14]))

/-- `i_block[EXT2_IND_BLOCK]`. -/
def Ext2Inode.indBlock (inode : Ext2Inode) : UInt32 := inode.iBlock[12]

/-- `i_block[EXT2_DIND_BLOCK]`. -/
def Ext2Inode.dindBlock (inode : Ext2Inode) : UInt32 := inode.iBlock[13]

/-- `i_block[EXT2_TIND_BLOCK]`, the last address. -/
def Ext2Inode.tindBlock (inode : Ext2Inode) : UInt32 := inode.iBlock[14]

/-- `blk_addrs` as it is printed. -/
def Ext2Inode.printedBlkAddrs (inode : Ext2Inode) : Option Text :=
  if inode.PrintsBlkAddrs then blkAddrs inode.iBlock else some []

/-- The row of an inode. -/
def inodeRow (inodeNumber : Int) (inode : Ext2Inode) : Option Text := do
  let blkAddrs ← inode.printedBlkAddrs
  let ctimeBuf ← getTime inode.iCtime
  let mtimeBuf ← getTime inode.iMtime
  let atimeBuf ← getTime inode.iAtime
  pure (csvRow ["INODE".toList, decimal inodeNumber, [fileType inode.iMode],
    octalPadded 4 (inode.iMode &&& 0x0fff).toNat, decimal inode.iUid.toNat,
    decimal inode.iGid.toNat, decimal inode.iLinksCount.toNat, ctimeBuf, mtimeBuf, atimeBuf,
    decimal (asInt inode.iSize), decimal (asInt inode.iBlocks), blkAddrs])

/-- The row of a directory entry. -/
def direntRow (inodeNumber logicalOffset : Int) (entry : Ext2DirEntry) : Option Text := do
  let name ← untilNul entry.nameBytes
  pure (csvRow ["DIRECT".toList, decimal inodeNumber, decimal logicalOffset,
    decimal (asInt entry.inode), decimal entry.recLen.toNat, decimal entry.nameLen.toNat, name])

end Coursework.FileSystem
