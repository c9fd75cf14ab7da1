import Coursework.FileSystem.Bitmaps
import Coursework.FileSystem.Indirect

/-!
# The dump program

`main` of `lab3a.c` on an image: the rows of the superblock and of the group, the scans of the
bitmaps, and the inodes with their directory entries and indirect blocks. The byte offset of a block
is computed with 32 bits on every one of these paths; `offsets_exact_iff` says for which blocks it
is right.
Vocabulary and scope: `Coursework.FileSystem.Image`.
-/

namespace Coursework.FileSystem

open Numbers Python Stdio

/-! ## Structures in the image -/

/-- The fields of `struct ext2_super_block` that the program reads. -/
structure FsSuperblk extends Ext2SuperBlock where
  sInodesCount : UInt32
  sFirstIno : UInt32
  sInodeSize : UInt16

/-- The superblock in an array. -/
def superblkAt (bytes : Memory) : FsSuperblk where
  sInodesCount := u32At bytes 0
  sBlocksCount := u32At bytes 4
  sFirstDataBlock := u32At bytes 20
  sLogBlockSize := u32At bytes 24
  sBlocksPerGroup := u32At bytes 32
  sInodesPerGroup := u32At bytes 40
  sFirstIno := u32At bytes 84
  sInodeSize := u16At bytes 88

/-- The fields of `struct ext2_group_desc` that the program reads. -/
structure FsBlkTbl extends Ext2GroupDesc where
  bgBlockBitmap : UInt32
  bgInodeBitmap : UInt32
  bgInodeTable : UInt32

/-- The group descriptor in an array. -/
def blkTblAt (bytes : Memory) : FsBlkTbl where
  bgBlockBitmap := u32At bytes 0
  bgInodeBitmap := u32At bytes 4
  bgInodeTable := u32At bytes 8
  bgFreeBlocksCount := u16At bytes 12
  bgFreeInodesCount := u16At bytes 14

/-- The inode in an array. -/
def inodeAt (bytes : Memory) : Ext2Inode where
  iMode := u16At bytes 0
  iUid := u16At bytes 2
  iSize := u32At bytes 4
  iAtime := u32At bytes 8
  iCtime := u32At bytes 12
  iMtime := u32At bytes 16
  iGid := u16At bytes 24
  iLinksCount := u16At bytes 26
  iBlocks := u32At bytes 28
  iBlock := .ofFn fun i => u32At bytes (40 + 4 * i)

/-- A bitmap block in an array. -/
def bitmapAt (blockSize : Nat) (bytes : Memory) : Bitmap :=
  (List.range blockSize).map fun i => (bytes i).toBitVec

/-- The sizes of the structures. -/
def superBlockSize : Nat := 1024

def groupDescSize : Nat := 32

def inodeSize : Nat := 128

/-- `SUPERBLK_OFFSET`. -/
def superblkOffset : Nat := 1024

/-! ## Rows -/

/-- The row of the superblock. -/
def superblockRow (fsSuperblk : FsSuperblk) : Text :=
  csvRow ["SUPERBLOCK".toList, decimal (asInt fsSuperblk.sBlocksCount),
    decimal (asInt fsSuperblk.sInodesCount), decimal fsSuperblk.blockSize,
    decimal fsSuperblk.sInodeSize.toNat, decimal (asInt fsSuperblk.sBlocksPerGroup),
    decimal (asInt fsSuperblk.sInodesPerGroup), decimal (asInt fsSuperblk.sFirstIno)]

/-- The row of the only group. -/
def groupRow (fsSuperblk : FsSuperblk) (fsBlkTbl : FsBlkTbl) : Text :=
  csvRow ["GROUP".toList, decimal 0, decimal (asInt fsSuperblk.sBlocksCount),
    decimal (asInt fsSuperblk.sInodesCount), decimal fsBlkTbl.bgFreeBlocksCount.toNat,
    decimal fsBlkTbl.bgFreeInodesCount.toNat, decimal (asInt fsBlkTbl.bgBlockBitmap),
    decimal (asInt fsBlkTbl.bgInodeBitmap), decimal (asInt fsBlkTbl.bgInodeTable)]

/-- `fs_superblk`. -/
def Image.superblk (image : Image) (stack : Stack) : FsSuperblk :=
  superblkAt (image.fill (stack [0]) superBlockSize superblkOffset)

/-! ## The program -/

/-- The rows of a scan and the assertion about its sum. -/
def checkScan (scan : Scan) (freeCount : UInt16) : Dump Unit := do
  Trace.emits (scan.printed.map .printed)
  if scan.freeSum = freeCount.toNat then pure () else .halt .abort

/-- The call of `print_ind_blks` for a block address that is not zero. -/
def indirectRoot (image : Image) (blockSize : Nat) (inodeNumber : Int) (stack : Stack)
    (block : UInt32) (below : Nat) (offset : Int) : Dump Unit :=
  if block ≠ 0 then printIndBlks image blockSize inodeNumber below stack block offset else pure ()

/-- The part of the loop over the inodes that is about an allocated one; the buffers for its block
addresses may be too small. -/
def dumpInode (image : Image) (blockSize : Nat) (stack : Stack) (fuel : Nat) (inodeNumber : Int)
    (inode : Ext2Inode) : Dump Unit :=
  match inodeRow inodeNumber inode with
  | none => .halt .undefined
  | some row => do
      Trace.emit (.printed row)
      if fileType inode.iMode = 'd' then
        directoryEntries image blockSize inodeNumber fuel inode (stack [])
      indirectRoot image blockSize inodeNumber (stack.sub 0) inode.indBlock 0 12
      indirectRoot image blockSize inodeNumber (stack.sub 1) inode.dindBlock 1 268
      indirectRoot image blockSize inodeNumber (stack.sub 2) inode.tindBlock 2 65804

/-- The loop over the inodes with these indices. -/
def dumpInodes (image : Image) (blockSize : Nat) (stack : Stack) (fuel : Nat)
    (inodeTbl : Memory) : List Nat → Dump Unit
  | [] => pure ()
  | i :: is => do
      let inode := inodeAt fun j => inodeTbl (inodeSize * i + j)
      if inode.IsAllocated then dumpInode image blockSize (stack.sub i) fuel (i + 1) inode
      dumpInodes image blockSize stack fuel inodeTbl is

/-- The part of `main` that is about the only group. -/
def dumpGroup (image : Image) (stack : Stack) (fuel : Nat) (fsSuperblk : FsSuperblk)
    (fsBlkTbl : FsBlkTbl) : Dump Unit := do
  let blockSize := fsSuperblk.blockSize
  let blockBitmap ←
    image.pread blockSize (.blockBitmap fsBlkTbl.bgBlockBitmap) blockSize (stack [2])
  checkScan (blockScan fsSuperblk.toExt2SuperBlock (bitmapAt blockSize blockBitmap))
    fsBlkTbl.bgFreeBlocksCount
  let inodeBitmap ←
    image.pread blockSize (.inodeBitmap fsBlkTbl.bgInodeBitmap) blockSize (stack [3])
  checkScan (inodeScan fsSuperblk.toExt2SuperBlock (bitmapAt blockSize inodeBitmap))
    fsBlkTbl.bgFreeInodesCount
  let inodeTbl ← image.pread blockSize (.inodeTable fsBlkTbl.bgInodeTable)
    (fsSuperblk.sInodesPerGroup.toNat * inodeSize) (stack [4])
  dumpInodes image blockSize (stack.sub 5) fuel inodeTbl
    (List.range (asInt fsSuperblk.sInodesPerGroup).toNat)

/-- `fs_blk_tbl`. -/
def Image.blkTbl (image : Image) (stack : Stack) : FsBlkTbl :=
  blkTblAt (image.fill (stack [1]) groupDescSize
    (superblkOffset + (image.superblk stack).blockSize))

/-- `main` on an image that could be opened. The shift overflows for block sizes behind `2 ^ 30`. -/
def main (image : Image) (stack : Stack) (fuel : Nat) : Dump Unit :=
  if 20 < (image.superblk stack).sLogBlockSize.toNat then .halt .undefined
  else do
    Trace.emit (.printed (superblockRow (image.superblk stack)))
    Trace.emit (.printed (groupRow (image.superblk stack) (image.blkTbl stack)))
    dumpGroup image stack fuel (image.superblk stack) (image.blkTbl stack)

/-! ## Offsets -/

/-- The byte at which a read should begin. -/
def Access.place (blockSize : Nat) : Access → Nat
  | blockBitmap block | inodeBitmap block | inodeTable block | indirect block =>
      block.toNat * blockSize
  | directory block logicalOffset => block.toNat * blockSize + logicalOffset

/-- The block begins below 4 GiB or, where the offset is an `int`, below 2 GiB. -/
def Access.InRange (blockSize : Nat) : Access → Prop
  | blockBitmap block | inodeBitmap block | inodeTable block => block.toNat * blockSize < 2 ^ 32
  | directory block _ | indirect block => block.toNat * blockSize < 2 ^ 31

/-- The reads that an image leads to begin where they should. -/
def OffsetsExact (image : Image) (stack : Stack) (fuel : Nat) : Prop :=
  ∀ a ∈ accesses (main image stack fuel).events,
    a.offset (image.superblk stack).blockSize =
      some (a.place (image.superblk stack).blockSize : Int)

/-- A place in a block of a directory is in this block. -/
def Access.InBlock (blockSize : Nat) : Access → Prop
  | directory _ logicalOffset => logicalOffset < blockSize
  | _ => True

/-- What the program reads at this point is in the block that it is meant to be in. -/
def Event.InBlock (blockSize : Nat) : Event → Prop
  | access a => a.InBlock blockSize
  | _ => True

variable {image : Image} {blockSize fuel : Nat} {stack : Stack} {a : Access}

/-- An offset is right exactly if it is in range. -/
theorem offset_eq_place_iff (hdvd : blockSize ∣ 2 ^ 31) (hin : a.InBlock blockSize) :
    a.offset blockSize = some (a.place blockSize : Int) ↔ a.InRange blockSize := by
  have hunsigned : ∀ block : UInt32,
      unsignedOffset blockSize block = some ((block.toNat * blockSize : Nat) : Int) ↔
        block.toNat * blockSize < 2 ^ 32 := by
    intro block
    unfold unsignedOffset
    rw [Option.some.injEq, Int.natCast_inj, Nat.mod_eq_iff_lt (by decide)]
  cases a with
  | blockBitmap block => exact hunsigned block
  | inodeBitmap block => exact hunsigned block
  | inodeTable block => exact hunsigned block
  | directory block logicalOffset =>
      -- a block that begins below 2 GiB also ends there
      have hblock : block.toNat * blockSize + logicalOffset < 2 ^ 31 ↔
          block.toNat * blockSize < 2 ^ 31 := by
        obtain ⟨count, hcount⟩ := hdvd
        refine ⟨fun h => by omega, fun h => ?_⟩
        rw [hcount, Nat.mul_comm blockSize] at h ⊢
        have hlt : block.toNat < count := Nat.lt_of_mul_lt_mul_right h
        have hle : (block.toNat + 1) * blockSize ≤ count * blockSize :=
          Nat.mul_le_mul_right blockSize hlt
        rw [Nat.add_mul, Nat.one_mul] at hle
        have hin : logicalOffset < blockSize := hin
        omega
      show _ ↔ block.toNat * blockSize < 2 ^ 31
      rw [← hblock]
      refine ⟨fun h => ?_, directory_offset_of_lt⟩
      obtain ⟨start, -, hoffset⟩ := Option.bind_eq_some_iff.mp h
      rw [intResult_eq_some] at hoffset
      obtain ⟨heq, -, hle⟩ := hoffset
      rw [heq] at hle
      exact_mod_cast Int.lt_add_one_of_le hle
  | indirect block =>
      refine ⟨fun h => ?_, indirect_offset_of_lt⟩
      obtain ⟨heq, -, hle⟩ := intResult_eq_some.mp h
      rw [heq] at hle
      exact_mod_cast Int.lt_add_one_of_le hle

/-! ## Every read is in its block -/

theorem always_pread (count : Nat) (bytes : Memory) (h : a.InBlock blockSize) :
    (image.pread blockSize a count bytes).Always (Event.InBlock blockSize) := by
  refine Trace.always_bind (Trace.always_emit h) fun _ => ?_
  split
  · exact Trace.always_halt _
  · split
    · exact Trace.always_halt _
    · exact Trace.always_pure _

variable {inodeNumber : Int}

theorem always_scanRecords (block : UInt32) (logicalOffset : Nat) (dirData : Memory) :
    (scanRecords image blockSize inodeNumber block fuel logicalOffset dirData).Always
      (Event.InBlock blockSize) := by
  induction fuel generalizing logicalOffset dirData with
  | zero => exact Trace.always_halt _
  | succ fuel ih =>
      rw [scanRecords]
      split
      · next hlt =>
          refine Trace.always_bind (always_pread _ _ hlt) fun dirData => ?_
          simp only
          split
          · exact Trace.always_bind (Trace.always_emit trivial) fun _ => ih _ _
          · exact ih _ _
      · exact Trace.always_pure _

theorem always_scanBlocks (blocks : List UInt32) (logicalOffset : Nat) (dirData : Memory) :
    (scanBlocks image blockSize inodeNumber fuel blocks logicalOffset dirData).Always
      (Event.InBlock blockSize) := by
  induction blocks generalizing logicalOffset dirData with
  | nil => exact Trace.always_pure _
  | cons block blocks ih =>
      rw [scanBlocks]
      split
      · exact Trace.always_bind (always_scanRecords _ _ _) fun _ => ih _ _
      · exact ih _ _

theorem always_scanPointers {lvl : Nat} {blkNmbr : UInt32} {indBlocks : Memory}
    {call : Nat → UInt32 → Int → Dump Unit}
    (hcall : ∀ i pointer offset, (call i pointer offset).Always (Event.InBlock blockSize))
    (is : List Nat) (offset : Int) :
    (scanPointers inodeNumber lvl blkNmbr indBlocks call is offset).Always
      (Event.InBlock blockSize) := by
  intro e he
  obtain ⟨i, -, next, hmem⟩ := mem_events_scanPointers he
  unfold pointerEvents at hmem
  split at hmem
  · rcases List.mem_cons.mp hmem with rfl | hbelow
    · trivial
    · exact hcall i _ next e hbelow
  · cases hmem

theorem always_printIndBlks (below : Nat) (stack : Stack) (blkNmbr : UInt32) (offset : Int) :
    (printIndBlks image blockSize inodeNumber below stack blkNmbr offset).Always
      (Event.InBlock blockSize) := by
  induction below generalizing stack blkNmbr offset with
  | zero =>
      exact Trace.always_bind (always_pread _ _ trivial) fun _ =>
        always_scanPointers (fun _ _ _ => Trace.always_pure _) _ _
  | succ below ih =>
      exact Trace.always_bind (always_pread _ _ trivial) fun _ =>
        always_scanPointers (fun _ _ _ => ih _ _ _) _ _

theorem always_indirectRoot (stack : Stack) (block : UInt32) (below : Nat) (offset : Int) :
    (indirectRoot image blockSize inodeNumber stack block below offset).Always
      (Event.InBlock blockSize) := by
  unfold indirectRoot
  split
  · exact always_printIndBlks _ _ _ _
  · exact Trace.always_pure _

theorem always_dumpInode (stack : Stack) (inode : Ext2Inode) :
    (dumpInode image blockSize stack fuel inodeNumber inode).Always (Event.InBlock blockSize) := by
  have hroots : Trace.Always (Event.InBlock blockSize) (do
      indirectRoot image blockSize inodeNumber (stack.sub 0) inode.indBlock 0 12
      indirectRoot image blockSize inodeNumber (stack.sub 1) inode.dindBlock 1 268
      indirectRoot image blockSize inodeNumber (stack.sub 2) inode.tindBlock 2 65804) :=
    Trace.always_bind (always_indirectRoot _ _ _ _) fun _ =>
      Trace.always_bind (always_indirectRoot _ _ _ _) fun _ => always_indirectRoot _ _ _ _
  unfold dumpInode
  split
  · exact Trace.always_halt _
  · refine Trace.always_bind (Trace.always_emit trivial) fun _ => ?_
    simp only
    split
    · exact Trace.always_bind (always_scanBlocks _ _ _) fun _ => hroots
    · exact hroots

theorem always_dumpInodes (stack : Stack) (inodeTbl : Memory) (is : List Nat) :
    (dumpInodes image blockSize stack fuel inodeTbl is).Always (Event.InBlock blockSize) := by
  induction is with
  | nil => exact Trace.always_pure _
  | cons i is ih =>
      rw [dumpInodes]
      simp only
      split
      · exact Trace.always_bind (always_dumpInode _ _) fun _ => ih
      · exact ih

theorem always_checkScan (scan : Scan) (freeCount : UInt16) :
    (checkScan scan freeCount).Always (Event.InBlock blockSize) := by
  refine Trace.always_bind (Trace.always_emits ?_) fun _ => ?_
  · intro e he
    obtain ⟨row, -, rfl⟩ := List.mem_map.mp he
    trivial
  · split
    · exact Trace.always_pure _
    · exact Trace.always_halt _

theorem always_dumpGroup (stack : Stack) (fsSuperblk : FsSuperblk) (fsBlkTbl : FsBlkTbl) :
    (dumpGroup image stack fuel fsSuperblk fsBlkTbl).Always
      (Event.InBlock fsSuperblk.blockSize) := by
  unfold dumpGroup
  refine Trace.always_bind (always_pread _ _ trivial) fun _ => ?_
  refine Trace.always_bind (always_checkScan _ _) fun _ => ?_
  refine Trace.always_bind (always_pread _ _ trivial) fun _ => ?_
  refine Trace.always_bind (always_checkScan _ _) fun _ => ?_
  exact Trace.always_bind (always_pread _ _ trivial) fun _ => always_dumpInodes _ _ _

/-- In every run, every read of a record begins in its block. -/
theorem always_main (image : Image) (stack : Stack) (fuel : Nat) :
    (main image stack fuel).Always (Event.InBlock (image.superblk stack).blockSize) := by
  unfold main
  split
  · exact Trace.always_halt _
  · exact Trace.always_bind (Trace.always_emit trivial) fun _ =>
      Trace.always_bind (Trace.always_emit trivial) fun _ => always_dumpGroup _ _ _

/-- The size of a block is a power of two, if anything is read. -/
theorem blockSize_dvd_of_mem (h : a ∈ accesses (main image stack fuel).events) :
    (image.superblk stack).blockSize ∣ 2 ^ 31 := by
  unfold main at h
  split at h
  · cases h
  · next hlog =>
      have hsize : (image.superblk stack).blockSize =
          2 ^ (10 + (image.superblk stack).sLogBlockSize.toNat) := by
        unfold Ext2SuperBlock.blockSize
        rw [Nat.shiftLeft_eq, Nat.pow_add]
      rw [hsize]
      exact Nat.pow_dvd_pow 2 (by omega)

/-- In every run, the reads begin where they should exactly if the blocks of the bitmaps and of the
inode table begin below 4 GiB, and those of directories and the indirect ones below 2 GiB. -/
theorem offsets_exact_iff (image : Image) (stack : Stack) (fuel : Nat) :
    OffsetsExact image stack fuel ↔ ∀ a ∈ accesses (main image stack fuel).events,
      a.InRange (image.superblk stack).blockSize := by
  refine forall₂_congr fun a ha => ?_
  have hin : a.InBlock (image.superblk stack).blockSize :=
    always_main image stack fuel (.access a) (mem_accesses.mp ha)
  exact offset_eq_place_iff (blockSize_dvd_of_mem ha) hin

/-- The block of a read. -/
def Access.block : Access → UInt32
  | blockBitmap block | inodeBitmap block | inodeTable block | directory block _ |
    indirect block => block

/-- On a file system of at most 2 GiB, all reads of its blocks begin where they should. -/
theorem offsets_exact_of_size_le
    (hblocks : ∀ a ∈ accesses (main image stack fuel).events,
      a.block < (image.superblk stack).sBlocksCount)
    (hsize :
      (image.superblk stack).sBlocksCount.toNat * (image.superblk stack).blockSize ≤ 2 ^ 31) :
    OffsetsExact image stack fuel := by
  rw [offsets_exact_iff]
  intro a ha
  have hlt : a.block.toNat < (image.superblk stack).sBlocksCount.toNat :=
    UInt32.lt_iff_toNat_lt.mp (hblocks a ha)
  have hpos : 0 < (image.superblk stack).blockSize :=
    Nat.pos_of_dvd_of_pos (blockSize_dvd_of_mem ha) (Nat.two_pow_pos 31)
  have hrange : a.block.toNat * (image.superblk stack).blockSize < 2 ^ 31 :=
    Nat.lt_of_lt_of_le (Nat.mul_lt_mul_of_pos_right hlt hpos) hsize
  have hle : (2 : Nat) ^ 31 ≤ 2 ^ 32 := Nat.pow_le_pow_right (Nat.succ_pos 1) (Nat.le_succ 31)
  cases a with
  | blockBitmap block => exact Nat.lt_of_lt_of_le hrange hle
  | inodeBitmap block => exact Nat.lt_of_lt_of_le hrange hle
  | inodeTable block => exact Nat.lt_of_lt_of_le hrange hle
  | directory block logicalOffset => exact hrange
  | indirect block => exact hrange

/-! ## A large image -/

/-- The scan of a bitmap with all bits set finds nothing. -/
theorem scan_ones (name : Text) (perGroup : UInt32) (n : Nat) :
    (scan name perGroup (List.replicate n 255)).printed = [] ∧
      (scan name perGroup (List.replicate n 255)).freeSum = 0 := by
  obtain ⟨cnt, hscan⟩ := scanBytes_eq name 0 (List.replicate n 255) ⟨[], asInt perGroup, 0⟩
  have hfree : freeBits (List.replicate n 255) (asInt perGroup) = [] := by
    unfold freeBits
    rw [List.filter_eq_nil_iff]
    intro k hk hclear
    obtain ⟨⟨byte, hbyte, hbit⟩, -⟩ := of_decide_eq_true hclear
    have hone : byte = 255 := List.eq_of_mem_replicate (List.mem_of_getElem? hbyte)
    have hbits : ∀ j < 8, (255 : BitVec 8).getLsbD j = true := by decide
    rw [hone, hbits _ (Nat.mod_lt k (by decide))] at hbit
    cases hbit
  rw [scan, hscan, hfree]
  exact ⟨rfl, rfl⟩

theorem dumpInodes_of_not_allocated {inodeTbl : Memory} {is : List Nat}
    (h : ∀ i ∈ is, ¬ (inodeAt fun j => inodeTbl (inodeSize * i + j)).IsAllocated) :
    dumpInodes image blockSize stack fuel inodeTbl is = pure () := by
  induction is with
  | nil => rfl
  | cons i is ih =>
      rw [List.forall_mem_cons] at h
      rw [dumpInodes]
      simp only [if_neg h.1]
      exact ih h.2

/-- An image of a file system with 4194560 blocks of 1024 bytes, whose block bitmap is in block
4194304, that is 4 GiB from the beginning. The inode bitmap is in block 4 and the inode table in
block 5; the bits of the blocks 0 and 4 are set. -/
def largeImage : Image where
  size := 4194560 * 1024
  byte position :=
    if position < 1024 then 255
    else if position = 1024 then 8
    else if position = 1029 then 1
    else if position = 1030 then 0x40
    else if position = 1057 then 0x20
    else if position = 1064 then 8
    else if position = 2050 then 0x40
    else if position = 2052 then 4
    else if position = 2056 then 5
    else if 4096 ≤ position ∧ position < 5120 then 255
    else 0

theorem fill_apply {bytes : Memory} {count offset j : Nat} (hj : j < count)
    (hsize : offset + j < image.size) :
    image.fill bytes count offset j = image.byte (offset + j) :=
  if_pos ⟨hj, hsize⟩

/-- Structures are read from the bytes of the image that are there. -/
theorem u32At_fill {bytes : Memory} {count offset position : Nat} (hcount : position + 4 ≤ count)
    (hsize : offset + count ≤ image.size) :
    u32At (image.fill bytes count offset) position =
      u32At (fun j => image.byte (offset + j)) position :=
  u32At_congr fun j hj => fill_apply (by omega) (by omega)

theorem u16At_fill {bytes : Memory} {count offset position : Nat} (hcount : position + 2 ≤ count)
    (hsize : offset + count ≤ image.size) :
    u16At (image.fill bytes count offset) position =
      u16At (fun j => image.byte (offset + j)) position :=
  u16At_congr fun j hj => fill_apply (by omega) (by omega)

/-- The superblock of this image. -/
theorem largeImage_superblk (stack : Stack) :
    largeImage.superblk stack = ⟨⟨4194560, 0, 0, 8192, 8⟩, 8, 0, 0⟩ := by
  have hblocksCount : u32At (fun j => largeImage.byte (1024 + j)) 4 = 4194560 := by decide
  have hfirstBlock : u32At (fun j => largeImage.byte (1024 + j)) 20 = 0 := by decide
  have hlogSize : u32At (fun j => largeImage.byte (1024 + j)) 24 = 0 := by decide
  have hblocks : u32At (fun j => largeImage.byte (1024 + j)) 32 = 8192 := by decide
  have hinodes : u32At (fun j => largeImage.byte (1024 + j)) 40 = 8 := by decide
  have hinodesCount : u32At (fun j => largeImage.byte (1024 + j)) 0 = 8 := by decide
  have hfirstIno : u32At (fun j => largeImage.byte (1024 + j)) 84 = 0 := by decide
  have hinodeSize : u16At (fun j => largeImage.byte (1024 + j)) 88 = 0 := by decide
  unfold Image.superblk superblkAt
  simp (disch := decide) only [u32At_fill, u16At_fill, superblkOffset, hblocksCount, hfirstBlock,
    hlogSize, hblocks, hinodes, hinodesCount, hfirstIno, hinodeSize]

/-- The group descriptor of this image. -/
theorem largeImage_blkTbl (bytes : Memory) :
    blkTblAt (largeImage.fill bytes groupDescSize 2048) = ⟨⟨0, 0⟩, 4194304, 4, 5⟩ := by
  have hblockBitmap : u32At (fun j => largeImage.byte (2048 + j)) 0 = 4194304 := by decide
  have hinodeBitmap : u32At (fun j => largeImage.byte (2048 + j)) 4 = 4 := by decide
  have hinodeTable : u32At (fun j => largeImage.byte (2048 + j)) 8 = 5 := by decide
  have hfreeBlocks : u16At (fun j => largeImage.byte (2048 + j)) 12 = 0 := by decide
  have hfreeInodes : u16At (fun j => largeImage.byte (2048 + j)) 14 = 0 := by decide
  unfold blkTblAt
  simp (disch := decide) only [u32At_fill, u16At_fill, hblockBitmap, hinodeBitmap, hinodeTable,
    hfreeBlocks, hfreeInodes]

/-- A block whose bytes are all set is a bitmap with all bits set. -/
theorem bitmapAt_fill_ones {bytes : Memory} {offset : Nat} (hsize : offset + 1024 ≤ image.size)
    (hones : ∀ j < 1024, image.byte (offset + j) = 255) :
    bitmapAt 1024 (image.fill bytes 1024 offset) = List.replicate 1024 255 := by
  unfold bitmapAt
  rw [List.eq_replicate_iff]
  refine ⟨by simp, ?_⟩
  intro byte hbyte
  obtain ⟨j, hj, rfl⟩ := List.mem_map.mp hbyte
  have hlt := List.mem_range.mp hj
  rw [fill_apply hlt (by omega), hones j hlt]
  rfl

theorem checkScan_ones (name : Text) (perGroup : UInt32) (n : Nat) :
    checkScan (scan name perGroup (List.replicate n 255)) 0 = pure () := by
  obtain ⟨hprinted, hsum⟩ := scan_ones name perGroup n
  unfold checkScan
  rw [hprinted, hsum]
  rfl

theorem accesses_printed_bind (row : Text) (f : Unit → Dump Unit) :
    accesses (Trace.emit (.printed row) >>= f).events = accesses (f ()).events := rfl

theorem accesses_pread_bind {count : Nat} {bytes : Memory} {offset : Nat}
    (h : a.offset blockSize = some (offset : Int)) (f : Memory → Dump Unit) :
    accesses (image.pread blockSize a count bytes >>= f).events =
      a :: accesses (f (image.fill bytes count offset)).events := by
  rw [pread_of_nonneg h (Int.natCast_nonneg offset), Trace.bind_of_ok rfl]
  rfl

/-- What is read of a group whose bitmaps have all bits set and whose inodes are not allocated. -/
theorem accesses_dumpGroup {fsSuperblk : FsSuperblk} {fsBlkTbl : FsBlkTbl}
    {blocks inodes table : Nat} {count : UInt32} (hsize : fsSuperblk.blockSize = blockSize)
    (hcount : fsSuperblk.sInodesPerGroup = count)
    (hcounts : fsBlkTbl.toExt2GroupDesc = ⟨0, 0⟩)
    (hblocks : (Access.blockBitmap fsBlkTbl.bgBlockBitmap).offset blockSize = some (blocks : Int))
    (hinodes : (Access.inodeBitmap fsBlkTbl.bgInodeBitmap).offset blockSize = some (inodes : Int))
    (htable : (Access.inodeTable fsBlkTbl.bgInodeTable).offset blockSize = some (table : Int))
    (hblockOnes : ∀ bytes, bitmapAt blockSize (image.fill bytes blockSize blocks) =
      List.replicate blockSize 255)
    (hinodeOnes : ∀ bytes, bitmapAt blockSize (image.fill bytes blockSize inodes) =
      List.replicate blockSize 255)
    (hfree : ∀ bytes, ∀ i < (asInt count).toNat, ¬ (inodeAt fun j =>
      image.fill bytes (count.toNat * inodeSize) table (inodeSize * i + j)).IsAllocated) :
    accesses (dumpGroup image stack fuel fsSuperblk fsBlkTbl).events =
      [.blockBitmap fsBlkTbl.bgBlockBitmap, .inodeBitmap fsBlkTbl.bgInodeBitmap,
        .inodeTable fsBlkTbl.bgInodeTable] := by
  unfold dumpGroup blockScan inodeScan
  simp only [hcounts, hsize, hcount]
  rw [accesses_pread_bind hblocks, hblockOnes, checkScan_ones, Trace.pure_bind,
    accesses_pread_bind hinodes, hinodeOnes, checkScan_ones, Trace.pure_bind,
    accesses_pread_bind htable,
    dumpInodes_of_not_allocated fun i hi => hfree _ i (List.mem_range.mp hi)]
  rfl

/-- All bits in the blocks 0 and 4 of the large image are set. -/
theorem largeImage_block_zero (bytes : Memory) :
    bitmapAt 1024 (largeImage.fill bytes 1024 0) = List.replicate 1024 255 :=
  bitmapAt_fill_ones (by decide) fun _ _ => if_pos (by omega)

theorem largeImage_block_four (bytes : Memory) :
    bitmapAt 1024 (largeImage.fill bytes 1024 4096) = List.replicate 1024 255 := by
  refine bitmapAt_fill_ones (by decide) fun j hj => ?_
  unfold largeImage
  simp only
  repeat rw [if_neg (by omega)]
  rw [if_pos (by omega)]

/-- None of its eight inodes is allocated. -/
theorem largeImage_not_allocated (bytes : Memory) {i : Nat} (hi : i < 8) :
    ¬ (inodeAt fun j => largeImage.fill bytes ((8 : UInt32).toNat * inodeSize) 5120
      (inodeSize * i + j)).IsAllocated := by
  have hmode : u16At (fun j => largeImage.fill bytes ((8 : UInt32).toNat * inodeSize) 5120
      (inodeSize * i + j)) 0 = u16At (fun _ => 0) 0 := by
    refine u16At_congr fun j hj => ?_
    have hcount : inodeSize * i + (0 + j) < (8 : UInt32).toNat * inodeSize := by
      show 128 * i + (0 + j) < 8 * 128
      omega
    have hinside : 5120 + (inodeSize * i + (0 + j)) < largeImage.size := by
      show 5120 + (128 * i + (0 + j)) < 4194560 * 1024
      omega
    rw [fill_apply hcount hinside]
    unfold largeImage
    simp only
    repeat rw [if_neg (by omega)]
  intro hallocated
  exact hallocated.1 hmode

/-- The three blocks that are read of the large image. -/
theorem largeImage_accesses (stack : Stack) (fuel : Nat) :
    accesses (main largeImage stack fuel).events =
      [.blockBitmap 4194304, .inodeBitmap 4, .inodeTable 5] := by
  have hlog : ¬ 20 < (largeImage.superblk stack).sLogBlockSize.toNat := by
    rw [largeImage_superblk]
    exact Nat.not_lt_zero 20
  have hsize : (largeImage.superblk stack).blockSize = 1024 := by
    rw [largeImage_superblk]
    rfl
  have hcount : (largeImage.superblk stack).sInodesPerGroup = 8 := by
    rw [largeImage_superblk]
  have hbehind : superblkOffset + 1024 = 2048 := by decide
  have htbl : largeImage.blkTbl stack = ⟨⟨0, 0⟩, 4194304, 4, 5⟩ := by
    unfold Image.blkTbl
    rw [hsize, hbehind, largeImage_blkTbl]
  -- the offset of the first bitmap wraps around to 0
  have hblocks : (Access.blockBitmap 4194304).offset 1024 = some ((0 : Nat) : Int) := by decide
  have hinodes : (Access.inodeBitmap 4).offset 1024 = some ((4096 : Nat) : Int) := by decide
  have htable : (Access.inodeTable 5).offset 1024 = some ((5120 : Nat) : Int) := by decide
  rw [main, if_neg hlog, accesses_printed_bind, accesses_printed_bind, htbl]
  exact accesses_dumpGroup hsize hcount rfl hblocks hinodes htable largeImage_block_zero
    largeImage_block_four fun bytes _ hi => largeImage_not_allocated bytes hi

/-- Its block numbers are below the number of its blocks, but the block bitmap is read from
block 0. -/
theorem large_offset_wraps :
    (∀ stack fuel, ∀ a ∈ accesses (main largeImage stack fuel).events,
      a.block < (largeImage.superblk stack).sBlocksCount) ∧
    (∀ stack fuel, ¬ OffsetsExact largeImage stack fuel) := by
  refine ⟨fun stack fuel a ha => ?_, fun stack fuel hexact => ?_⟩
  · have hcount : (largeImage.superblk stack).sBlocksCount = 4194560 := by
      rw [largeImage_superblk]
    have hbelow : ∀ a ∈ [Access.blockBitmap 4194304, .inodeBitmap 4, .inodeTable 5],
        a.block < 4194560 := by decide
    rw [largeImage_accesses] at ha
    rw [hcount]
    exact hbelow a ha
  · have hsize : (largeImage.superblk stack).blockSize = 1024 := by
      rw [largeImage_superblk]
      rfl
    have hoffset := hexact (.blockBitmap 4194304) (by
      rw [largeImage_accesses]
      exact List.mem_cons_self)
    rw [hsize] at hoffset
    exact absurd hoffset (by decide)

end Coursework.FileSystem
