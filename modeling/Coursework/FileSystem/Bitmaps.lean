import Coursework.FileSystem.Lab3a
import Mathlib.Data.List.Basic

/-!
# The bitmap scans

The two scans with which `lab3a.c` lists the free blocks and the free inodes of the group. The
countdown of a scan leaves only the loop over the bits of a byte, so a scan goes on with the byte
behind the last one of the group, to the end of the bitmap. `scans_right_iff` says when the rows
and the sums are right all the same. Counters do not overflow.
Vocabulary and scope: `Coursework.Text.Format`.
-/

namespace Coursework.FileSystem

open Python Stdio

/-- The fields of `struct ext2_super_block` that bound the scans. -/
structure Ext2SuperBlock where
  sBlocksCount : UInt32
  sFirstDataBlock : UInt32
  sLogBlockSize : UInt32
  sBlocksPerGroup : UInt32
  sInodesPerGroup : UInt32

/-- The fields of `struct ext2_group_desc` that the assertions read. -/
structure Ext2GroupDesc where
  bgFreeBlocksCount : UInt16
  bgFreeInodesCount : UInt16

/-- `BLOCK_SIZE`. -/
def Ext2SuperBlock.blockSize (fsSuperblk : Ext2SuperBlock) : Nat :=
  1024 <<< fsSuperblk.sLogBlockSize.toNat

/-- The contents of a bitmap block, an array of `char`. -/
abbrev Bitmap := List (BitVec 8)

/-- `bitmap_mask`. -/
def bitmapMask : BitVec 32 := 0x01

/-- The rows printed by a scan, the bits of the group that are not accounted for, and the number
of clear bits found. -/
structure Scan where
  printed : List Text
  cnt : Int
  freeSum : Nat

/-- A row about a free block or inode. -/
def freeRow (name : Text) (number : Int) : Text :=
  name ++ ", ".toList ++ decimal number ++ "\n".toList

/-- Check bit `j` of byte `i`, which has been shifted to bit 0. -/
def Scan.bit (name : Text) (i j : Nat) (byte : BitVec 8) (s : Scan) : Scan :=
  if bitmapMask &&& byte.signExtend 32 = 0 then
    ⟨s.printed ++ [freeRow name (8 * i + j + 1)], s.cnt - 1, s.freeSum + 1⟩
  else ⟨s.printed, s.cnt - 1, s.freeSum⟩

/-- The loop over the bits of a byte, which ends early when the countdown comes to 0. -/
def scanByte (name : Text) (i : Nat) : List Nat → BitVec 8 → Scan → Scan
  | [], _, s => s
  | j :: js, byte, s =>
      let s := s.bit name i j byte
      if s.cnt = 0 then s else scanByte name i js (byte.sshiftRight 1) s

/-- The loop over the bytes from the byte `i` on. -/
def scanBytes (name : Text) : Nat → Bitmap → Scan → Scan
  | _, [], s => s
  | i, byte :: bitmap, s => scanBytes name (i + 1) bitmap (scanByte name i (List.range 8) byte s)

/-- A scan of a whole bitmap. -/
def scan (name : Text) (perGroup : UInt32) (bitmap : Bitmap) : Scan :=
  scanBytes name 0 bitmap ⟨[], asInt perGroup, 0⟩

/-- The scan of the block bitmap. -/
def blockScan (fsSuperblk : Ext2SuperBlock) (blockBitmap : Bitmap) : Scan :=
  scan "BFREE".toList fsSuperblk.sBlocksPerGroup blockBitmap

/-- The scan of the inode bitmap. -/
def inodeScan (fsSuperblk : Ext2SuperBlock) (inodeBitmap : Bitmap) : Scan :=
  scan "IFREE".toList fsSuperblk.sInodesPerGroup inodeBitmap

/-- What the scans do; the second one is missing if the assertion about the first one fails. -/
structure Scans where
  blocks : Scan
  inodes : Option Scan
  aborted : Bool

/-- The part of `main` that scans the bitmaps. -/
def bitmapScans (fsSuperblk : Ext2SuperBlock) (fsBlkTbl : Ext2GroupDesc)
    (blockBitmap inodeBitmap : Bitmap) : Scans :=
  let blocks := blockScan fsSuperblk blockBitmap
  if blocks.freeSum = fsBlkTbl.bgFreeBlocksCount.toNat then
    let inodes := inodeScan fsSuperblk inodeBitmap
    ⟨blocks, some inodes, inodes.freeSum ≠ fsBlkTbl.bgFreeInodesCount.toNat⟩
  else ⟨blocks, none, true⟩

/-! ## The bits that a scan looks at -/

/-- Bit `k` of the bitmap is clear. -/
def IsClear (bitmap : Bitmap) (k : Nat) : Prop :=
  ∃ byte, bitmap[k / 8]? = some byte ∧ byte.getLsbD (k % 8) = false

instance (bitmap : Bitmap) (k : Nat) : Decidable (IsClear bitmap k) :=
  match h : bitmap[k / 8]? with
  | none => isFalse fun ⟨_, hbyte, _⟩ => by simp [h] at hbyte
  | some byte => decidable_of_iff (byte.getLsbD (k % 8) = false) (by simp [IsClear, h])

/-- The scan looks at bit `k` when it has to account for `cnt` bits: one of these, or one behind
the byte that holds the last of them. -/
def IsScanned (cnt : Int) (k : Nat) : Prop :=
  k < cnt.toNat ∨ (cnt.toNat + 7) / 8 * 8 ≤ k

instance (cnt : Int) (k : Nat) : Decidable (IsScanned cnt k) :=
  inferInstanceAs (Decidable (_ ∨ _))

/-- The scan after printing the rows about these bits. -/
def Scan.free (name : Text) (s : Scan) (bits : List Nat) (cnt : Int) : Scan :=
  ⟨s.printed ++ bits.map fun k : Nat => freeRow name (k + 1), cnt, s.freeSum + bits.length⟩

@[simp] theorem Scan.cnt_free (name : Text) (s : Scan) (bits : List Nat) (cnt : Int) :
    (s.free name bits cnt).cnt = cnt := rfl

/-- Printing more rows. -/
theorem Scan.free_free (name : Text) (s : Scan) (bits more : List Nat) (cnt cnt' : Int) :
    (s.free name bits cnt).free name more cnt' = s.free name (bits ++ more) cnt' := by
  simp [Scan.free, Nat.add_assoc]

/-- The mask finds the clear bits, also in a byte with its sign bit set. -/
theorem mask_eq_zero_iff (byte : BitVec 8) {j : Nat} (hj : j < 8) :
    bitmapMask &&& (byte.sshiftRight j).signExtend 32 = 0 ↔ byte.getLsbD j = false := by
  have hbit : ((byte.sshiftRight j).signExtend 32).getLsbD 0 = byte.getLsbD j := by
    rw [BitVec.getLsbD_signExtend, BitVec.getLsbD_sshiftRight]
    simp [hj]
  have hmask : bitmapMask &&& (byte.sshiftRight j).signExtend 32 =
      BitVec.setWidth 32 (BitVec.ofBool (byte.getLsbD j)) := by
    rw [← hbit, BitVec.and_comm]
    exact BitVec.and_one_eq_setWidth_ofBool_getLsbD
  rw [hmask]
  cases byte.getLsbD j <;> decide

/-- The bits of a byte, from bit `j` on, that are clear and come before the countdown ends. -/
def byteBits (byte : BitVec 8) (cnt : Int) (j m : Nat) : List Nat :=
  (List.range' j m).filter fun b => byte.getLsbD b = false ∧ (cnt ≤ 0 ∨ (b : Int) < j + cnt)

/-- The first of these bits. -/
theorem byteBits_succ (byte : BitVec 8) {cnt : Int} (j m : Nat) :
    byteBits byte cnt j (m + 1) = (if byte.getLsbD j = false then [j] else []) ++
      if cnt = 1 then [] else byteBits byte (cnt - 1) (j + 1) m := by
  have hrest : (List.range' (j + 1) m).filter (fun b =>
      byte.getLsbD b = false ∧ (cnt ≤ 0 ∨ (b : Int) < j + cnt)) =
      if cnt = 1 then [] else byteBits byte (cnt - 1) (j + 1) m := by
    split
    · next hone =>
        rw [List.filter_eq_nil_iff]
        intro b hb
        have hlow := (List.mem_range'_1.1 hb).1
        simp only [decide_eq_true_eq, not_and]
        omega
    · next hone =>
        refine List.filter_congr fun b _ => decide_eq_decide.2 (and_congr_right fun _ => ?_)
        omega
  have hfirst : (byte.getLsbD j = false ∧ (cnt ≤ 0 ∨ (j : Int) < j + cnt)) ↔
      byte.getLsbD j = false := and_iff_left (by omega)
  simp only [byteBits, List.range'_succ, List.filter_cons, hrest, hfirst, decide_eq_true_eq]
  by_cases hclear : byte.getLsbD j = false
  · rw [if_pos hclear, if_pos hclear]
    rfl
  · rw [if_neg hclear, if_neg hclear]
    rfl

/-- The scan of one byte from bit `j` on. -/
theorem scanByte_eq (name : Text) (i : Nat) (byte : BitVec 8) {m j : Nat} (hm : j + m = 8)
    (s : Scan) :
    scanByte name i (List.range' j m) (byte.sshiftRight j) s =
      s.free name ((byteBits byte s.cnt j m).map (8 * i + ·))
        (if 0 < s.cnt ∧ s.cnt ≤ m then 0 else s.cnt - m) := by
  induction m generalizing j s with
  | zero =>
      have hcnt : ¬ (0 < s.cnt ∧ s.cnt ≤ (0 : Nat)) := by omega
      rw [if_neg hcnt]
      simp [scanByte, Scan.free, byteBits]
  | succ m ih =>
      have hbit : s.bit name i j (byte.sshiftRight j) = s.free name
          ((if byte.getLsbD j = false then [j] else []).map (8 * i + ·)) (s.cnt - 1) := by
        unfold Scan.bit
        simp only [mask_eq_zero_iff byte (by omega : j < 8)]
        split <;> simp [Scan.free]
      have hcnt : (if 0 < s.cnt ∧ s.cnt ≤ (m + 1 : Nat) then 0 else s.cnt - (m + 1 : Nat)) =
          if s.cnt = 1 then 0
          else if 0 < s.cnt - 1 ∧ s.cnt - 1 ≤ m then 0 else s.cnt - 1 - m := by
        split_ifs <;> omega
      rw [List.range'_succ, scanByte, hbit, byteBits_succ, ← BitVec.sshiftRight_add, hcnt]
      by_cases hone : s.cnt = 1
      · rw [Scan.cnt_free, if_pos (by omega), if_pos hone, if_pos hone, List.append_nil, hone]
        rfl
      · rw [Scan.cnt_free, if_neg (by omega), if_neg hone, if_neg hone, ih (by omega),
          Scan.free_free, List.map_append, Scan.cnt_free]

/-- The clear bits that a scan looks at. -/
def freeBits (bitmap : Bitmap) (cnt : Int) : List Nat :=
  (List.range (8 * bitmap.length)).filter fun k => IsClear bitmap k ∧ IsScanned cnt k

/-- The bits of the first byte. -/
theorem isClear_cons_of_lt {byte : BitVec 8} {bitmap : Bitmap} {k : Nat} (hk : k < 8) :
    IsClear (byte :: bitmap) k ↔ byte.getLsbD k = false := by
  simp [IsClear, Nat.div_eq_of_lt hk, Nat.mod_eq_of_lt hk]

/-- The bits of the other bytes. -/
theorem isClear_cons_add {byte : BitVec 8} {bitmap : Bitmap} {k : Nat} :
    IsClear (byte :: bitmap) (8 + k) ↔ IsClear bitmap k := by
  simp [IsClear, Nat.add_div_left, Nat.add_mod_left]

/-- The bits of the first byte that a scan finds, and those of the others. When the countdown ends
in the first byte, it is at 0 for the others, and so it never ends again. -/
theorem freeBits_cons (byte : BitVec 8) (bitmap : Bitmap) (cnt : Int) :
    freeBits (byte :: bitmap) cnt = byteBits byte cnt 0 8 ++
      (freeBits bitmap (if 0 < cnt ∧ cnt ≤ 8 then 0 else cnt - 8)).map (8 + ·) := by
  have hfirst : (List.range 8).filter (fun k => IsClear (byte :: bitmap) k ∧ IsScanned cnt k) =
      byteBits byte cnt 0 8 := by
    rw [byteBits, ← List.range_eq_range']
    refine List.filter_congr fun k hk => decide_eq_decide.2 ?_
    have hk := List.mem_range.1 hk
    rw [isClear_cons_of_lt hk, IsScanned]
    refine and_congr_right fun _ => ?_
    omega
  have hrest : ∀ k, (IsClear (byte :: bitmap) (8 + k) ∧ IsScanned cnt (8 + k)) ↔
      IsClear bitmap k ∧ IsScanned (if 0 < cnt ∧ cnt ≤ 8 then 0 else cnt - 8) k := by
    intro k
    rw [isClear_cons_add, IsScanned, IsScanned]
    refine and_congr_right fun _ => ?_
    split <;> omega
  rw [freeBits, List.length_cons, Nat.mul_add, Nat.mul_one, Nat.add_comm, List.range_add,
    List.filter_append, hfirst, List.filter_map, freeBits]
  simp only [Function.comp_def, hrest]

/-- The scan of the bytes from byte `i` on. -/
theorem scanBytes_eq (name : Text) (i : Nat) (bitmap : Bitmap) (s : Scan) :
    ∃ cnt, scanBytes name i bitmap s =
      s.free name ((freeBits bitmap s.cnt).map (8 * i + ·)) cnt := by
  induction bitmap generalizing i s with
  | nil => exact ⟨s.cnt, by simp [scanBytes, Scan.free, freeBits]⟩
  | cons byte bitmap ih =>
      have hbyte := scanByte_eq name i byte (by omega : 0 + 8 = 8) s
      rw [BitVec.sshiftRight_zero, ← List.range_eq_range'] at hbyte
      obtain ⟨cnt, hrest⟩ := ih (i + 1) (s.free name ((byteBits byte s.cnt 0 8).map (8 * i + ·))
        (if 0 < s.cnt ∧ s.cnt ≤ (8 : Nat) then 0 else s.cnt - (8 : Nat)))
      refine ⟨cnt, ?_⟩
      rw [scanBytes, hbyte, hrest, Scan.free_free, Scan.cnt_free, freeBits_cons, List.map_append,
        List.map_map]
      congr 3
      funext k
      simp only [Function.comp_apply]
      omega

/-! ## Right scans -/

/-- The bits below `count` that are clear. -/
def clearBelow (bitmap : Bitmap) (count : Nat) : List Nat :=
  (List.range count).filter fun k => IsClear bitmap k

/-- The scan has found exactly the clear bits of a group of `count`, numbered from `first` on. -/
def Scan.Lists (name : Text) (first : Nat) (bitmap : Bitmap) (count : Nat) (s : Scan) : Prop :=
  s.printed = (clearBelow bitmap count).map (fun k => freeRow name (first + k : Nat)) ∧
    s.freeSum = (clearBelow bitmap count).length

/-- The number of blocks in the only group; it may be smaller than the others would be. -/
def Ext2SuperBlock.blocksInGroup (fsSuperblk : Ext2SuperBlock) : Nat :=
  min fsSuperblk.sBlocksPerGroup.toNat
    (fsSuperblk.sBlocksCount.toNat - fsSuperblk.sFirstDataBlock.toNat)

/-- The rows about free inodes. -/
def Scans.inodeRows (scans : Scans) : List Text :=
  match scans.inodes with
  | some s => s.printed
  | none => []

/-- The scans list the free blocks and the free inodes of the group, and the sums that are compared
are the numbers of these. -/
structure Scans.Right (fsSuperblk : Ext2SuperBlock) (blockBitmap inodeBitmap : Bitmap)
    (scans : Scans) : Prop where
  blocks : scans.blocks.Lists "BFREE".toList fsSuperblk.sFirstDataBlock.toNat blockBitmap
    fsSuperblk.blocksInGroup
  inodeRows : scans.inodeRows = (clearBelow inodeBitmap fsSuperblk.sInodesPerGroup.toNat).map
    fun k => freeRow "IFREE".toList (1 + k : Nat)
  inodeSum : ∀ s ∈ scans.inodes,
    s.freeSum = (clearBelow inodeBitmap fsSuperblk.sInodesPerGroup.toNat).length

/-- A row names its number. -/
theorem freeRow_injective (name : Text) : Function.Injective (freeRow name) := by
  intro n n' heq
  have hdecimal : str n = str n' := List.append_cancel_left (List.append_cancel_right heq)
  have hint := int_str n
  rw [hdecimal, int_str] at hint
  exact (Option.some.inj hint).symm

/-- A clear bit is a bit of the bitmap. -/
theorem IsClear.lt {bitmap : Bitmap} {k : Nat} (h : IsClear bitmap k) : k < 8 * bitmap.length := by
  obtain ⟨_, hbyte, -⟩ := h
  have hlt := (List.getElem?_eq_some_iff.1 hbyte).1
  omega

/-- A scan looks at all bits of its group. -/
theorem isScanned_of_lt {perGroup : UInt32} {k : Nat} (hk : k < perGroup.toNat) :
    IsScanned (asInt perGroup) k := by
  have hint : asInt perGroup = perGroup.toNat ∨ asInt perGroup ≤ 0 := by
    have hlt := perGroup.toNat_lt
    rw [asInt, BitVec.toInt_eq_toNat_cond, UInt32.toNat_toBitVec]
    split <;> omega
  unfold IsScanned
  rcases hint with hint | hint <;> omega

/-- The clear bits that a scan looks at are those of the group and others behind it. -/
theorem freeBits_eq {perGroup : UInt32} {bitmap : Bitmap} {count : Nat}
    (hcount : count ≤ perGroup.toNat) (hsize : perGroup.toNat ≤ 8 * bitmap.length) :
    freeBits bitmap (asInt perGroup) = clearBelow bitmap count ++
      (List.range' count (8 * bitmap.length - count)).filter fun k =>
        IsClear bitmap k ∧ IsScanned (asInt perGroup) k := by
  have hsplit : List.range (8 * bitmap.length) =
      List.range count ++ List.range' count (8 * bitmap.length - count) := by
    obtain ⟨rest, hrest⟩ := Nat.exists_eq_add_of_le (hcount.trans hsize)
    rw [hrest, Nat.add_sub_cancel_left, List.range_eq_range', List.range_eq_range',
      ← List.range'_append_1, Nat.zero_add]
  rw [freeBits, hsplit, List.filter_append, clearBelow]
  congr 1
  refine List.filter_congr fun k hk => decide_eq_decide.2 (and_iff_left_of_imp fun _ => ?_)
  exact isScanned_of_lt ((List.mem_range.1 hk).trans_le hcount)

/-- A scan is right if it finds no clear bit behind the group and numbers the blocks as the file
system does. -/
theorem scan_lists_iff (name : Text) {perGroup : UInt32} {bitmap : Bitmap} (first : Nat)
    {count : Nat} (hcount : count ≤ perGroup.toNat) (hsize : perGroup.toNat ≤ 8 * bitmap.length) :
    (scan name perGroup bitmap).Lists name first bitmap count ↔
      (∀ k, count ≤ k → IsClear bitmap k → ¬ IsScanned (asInt perGroup) k) ∧
        (first = 1 ∨ ∀ k < count, ¬ IsClear bitmap k) := by
  obtain ⟨cnt, hscan⟩ := scanBytes_eq name 0 bitmap ⟨[], asInt perGroup, 0⟩
  have hlate : (List.range' count (8 * bitmap.length - count)).filter (fun k =>
      IsClear bitmap k ∧ IsScanned (asInt perGroup) k) = [] ↔
      ∀ k, count ≤ k → IsClear bitmap k → ¬ IsScanned (asInt perGroup) k := by
    simp only [List.filter_eq_nil_iff, List.mem_range'_1, decide_eq_true_eq, not_and]
    refine forall_congr' fun k => ⟨fun h hk hclear => h ⟨hk, ?_⟩ hclear, fun h hk => h hk.1⟩
    have hlt := hclear.lt
    omega
  rw [scan, hscan, ← hlate]
  simp only [Scan.Lists, Scan.free, freeBits_eq hcount hsize, Nat.mul_zero, Nat.zero_add,
    List.map_id', List.nil_append, List.map_append, List.length_append]
  constructor
  · intro ⟨hprinted, hsum⟩
    have hnone := List.eq_nil_of_length_eq_zero (Nat.add_eq_left.1 hsum)
    refine ⟨hnone, or_iff_not_imp_right.2 fun hsome => ?_⟩
    push Not at hsome
    obtain ⟨k, hk, hclear⟩ := hsome
    rw [hnone, List.map_nil, List.append_nil, List.map_inj_left] at hprinted
    have hmem : k ∈ clearBelow bitmap count := List.mem_filter.2 ⟨List.mem_range.2 hk, by simpa⟩
    have hnumber := freeRow_injective name (hprinted k hmem)
    omega
  · intro ⟨hnone, hfirst⟩
    rw [hnone, List.map_nil, List.append_nil, List.length_nil, Nat.add_zero]
    refine ⟨List.map_congr_left fun k hmem => ?_, rfl⟩
    obtain ⟨hk, hclear⟩ := List.mem_filter.1 hmem
    rcases hfirst with rfl | hnever
    · exact congrArg (freeRow name) (by omega)
    · exact absurd (of_decide_eq_true hclear) (hnever k (List.mem_range.1 hk))

section

variable {fsSuperblk : Ext2SuperBlock} {fsBlkTbl : Ext2GroupDesc}
  {blockBitmap inodeBitmap : Bitmap}

/-- The block scan is always made. -/
theorem blocks_bitmapScans : (bitmapScans fsSuperblk fsBlkTbl blockBitmap inodeBitmap).blocks =
    blockScan fsSuperblk blockBitmap := by
  simp only [bitmapScans]
  split <;> rfl

/-- No bit below `count` is clear. -/
theorem clearBelow_eq_nil_iff {bitmap : Bitmap} {count : Nat} :
    clearBelow bitmap count = [] ↔ ∀ k < count, ¬ IsClear bitmap k := by
  simp [clearBelow, List.filter_eq_nil_iff]

/-- The inode scan is made if the assertion about the block scan holds. -/
theorem inodes_right_iff :
    ((bitmapScans fsSuperblk fsBlkTbl blockBitmap inodeBitmap).inodeRows =
          (clearBelow inodeBitmap fsSuperblk.sInodesPerGroup.toNat).map
            (fun k => freeRow "IFREE".toList (1 + k : Nat)) ∧
        ∀ s ∈ (bitmapScans fsSuperblk fsBlkTbl blockBitmap inodeBitmap).inodes,
          s.freeSum = (clearBelow inodeBitmap fsSuperblk.sInodesPerGroup.toNat).length) ↔
      if (blockScan fsSuperblk blockBitmap).freeSum = fsBlkTbl.bgFreeBlocksCount.toNat then
        (inodeScan fsSuperblk inodeBitmap).Lists "IFREE".toList 1 inodeBitmap
          fsSuperblk.sInodesPerGroup.toNat
      else ∀ k < fsSuperblk.sInodesPerGroup.toNat, ¬ IsClear inodeBitmap k := by
  rw [← clearBelow_eq_nil_iff]
  simp only [bitmapScans]
  split
  · refine and_congr_right fun _ => ⟨fun h => h _ rfl, fun h s hs => ?_⟩
    obtain rfl := Option.some.inj hs
    exact h
  · refine ⟨fun h => List.map_eq_nil_iff.1 h.1.symm, fun h => ⟨?_, fun s hs => ?_⟩⟩
    · rw [h]
      rfl
    · exact (Option.not_mem_none s hs).elim

end

/-- When the scans of the bitmaps are right: the block scan has to find no clear bit behind the
last block of the group, and the first data block has to be block 1 if a block is free; the inode
scan has to find no clear bit behind the last inode, or, if the assertion about the free blocks ends
the program before it, there has to be no free inode. -/
theorem scans_right_iff (fsSuperblk : Ext2SuperBlock) (fsBlkTbl : Ext2GroupDesc)
    {blockBitmap inodeBitmap : Bitmap} (hblock : blockBitmap.length = fsSuperblk.blockSize)
    (hinode : inodeBitmap.length = fsSuperblk.blockSize)
    (hblocks : fsSuperblk.sBlocksPerGroup.toNat ≤ 8 * fsSuperblk.blockSize)
    (hinodes : fsSuperblk.sInodesPerGroup.toNat ≤ 8 * fsSuperblk.blockSize) :
    (bitmapScans fsSuperblk fsBlkTbl blockBitmap inodeBitmap).Right fsSuperblk blockBitmap
        inodeBitmap ↔
      ((∀ k, fsSuperblk.blocksInGroup ≤ k → IsClear blockBitmap k →
          ¬ IsScanned (asInt fsSuperblk.sBlocksPerGroup) k) ∧
        (fsSuperblk.sFirstDataBlock.toNat = 1 ∨
          ∀ k < fsSuperblk.blocksInGroup, ¬ IsClear blockBitmap k)) ∧
      if (clearBelow blockBitmap fsSuperblk.blocksInGroup).length =
          fsBlkTbl.bgFreeBlocksCount.toNat then
        ∀ k, fsSuperblk.sInodesPerGroup.toNat ≤ k → IsClear inodeBitmap k →
          ¬ IsScanned (asInt fsSuperblk.sInodesPerGroup) k
      else ∀ k < fsSuperblk.sInodesPerGroup.toNat, ¬ IsClear inodeBitmap k := by
  have hblockScan : (blockScan fsSuperblk blockBitmap).Lists "BFREE".toList
      fsSuperblk.sFirstDataBlock.toNat blockBitmap fsSuperblk.blocksInGroup ↔ _ :=
    scan_lists_iff _ _ (min_le_left _ _) (hblock ▸ hblocks)
  have hinodeScan : (inodeScan fsSuperblk inodeBitmap).Lists "IFREE".toList 1 inodeBitmap
      fsSuperblk.sInodesPerGroup.toNat ↔ _ :=
    (scan_lists_iff _ _ le_rfl (hinode ▸ hinodes)).trans (and_iff_left (.inl rfl))
  have hparts : ∀ scans : Scans, scans.Right fsSuperblk blockBitmap inodeBitmap ↔ _ ∧ _ ∧ _ :=
    fun scans => ⟨fun h => ⟨h.blocks, h.inodeRows, h.inodeSum⟩, fun h => ⟨h.1, h.2.1, h.2.2⟩⟩
  rw [hparts, blocks_bitmapScans, inodes_right_iff, ← hblockScan, hinodeScan]
  refine and_congr_right fun hlists => ?_
  rw [hlists.2]

/-- A superblock with these sizes. -/
def sampleSuperblk (blocksCount firstDataBlock logBlockSize perGroup : UInt32) : Ext2SuperBlock :=
  ⟨blocksCount, firstDataBlock, logBlockSize, perGroup, perGroup⟩

/-- A bitmap block of 1024 bytes in which the first four bits are clear. -/
def sampleBitmap : Bitmap :=
  0xF0 :: List.replicate 1023 0xFF

/-- It is scanned right for groups of 64 blocks and inodes, four of which are free. -/
theorem sample_scans_right : let sb := sampleSuperblk 65 1 0 64
    (bitmapScans sb ⟨4, 4⟩ sampleBitmap sampleBitmap).Right sb sampleBitmap sampleBitmap ∧
      clearBelow sampleBitmap 64 = [0, 1, 2, 3] := by
  have hlength : sampleBitmap.length = 1024 := by
    rw [sampleBitmap, List.length_cons, List.length_replicate]
  have hset : ∀ k ≥ 64, ¬ IsClear sampleBitmap k := by
    rintro k hk ⟨byte, hbyte, hbit⟩
    obtain ⟨i, hi⟩ : ∃ i, k / 8 = i + 1 := ⟨k / 8 - 1, by omega⟩
    rw [sampleBitmap, hi, List.getElem?_cons_succ, List.getElem?_replicate] at hbyte
    obtain rfl := (Option.ite_some_none_eq_some.1 hbyte).2
    have hall : ∀ j < 8, (0xFF : BitVec 8).getLsbD j = true := by decide
    rw [hall _ (Nat.mod_lt k (by decide))] at hbit
    cases hbit
  have hclear : clearBelow sampleBitmap 64 = [0, 1, 2, 3] := by decide +kernel
  refine ⟨(scans_right_iff _ _ hlength hlength (by decide) (by decide)).2 ⟨⟨?_, .inl rfl⟩, ?_⟩,
    hclear⟩
  · exact fun k hk h => absurd h (hset k hk)
  · rw [show (sampleSuperblk 65 1 0 64).blocksInGroup = 64 by decide, hclear]
    split
    · exact fun k hk h => absurd h (hset k hk)
    · next hsum => exact absurd rfl hsum

/-- The bits of a cleared bitmap. -/
theorem isClear_replicate {size k : Nat} (hk : k < 8 * size) :
    IsClear (List.replicate size 0) k :=
  ⟨0, by rw [List.getElem?_replicate, if_pos (by omega)], BitVec.getLsbD_zero⟩

/-- With blocks of 4096 bytes the first block has the number 0, but is reported as block 1. With 9
inodes in a group, the inode scan reports bit 16. -/
theorem sample_scans_wrong :
    (∃ fsSuperblk fsBlkTbl blockBitmap inodeBitmap,
      blockBitmap.length = fsSuperblk.blockSize ∧ inodeBitmap.length = fsSuperblk.blockSize ∧
      fsSuperblk.sBlocksPerGroup.toNat ≤ 8 * fsSuperblk.blockSize ∧
      fsSuperblk.sInodesPerGroup.toNat ≤ 8 * fsSuperblk.blockSize ∧
      fsSuperblk.blockSize = 4096 ∧
      ¬ (bitmapScans fsSuperblk fsBlkTbl blockBitmap inodeBitmap).Right fsSuperblk blockBitmap
        inodeBitmap) ∧
    ∃ fsSuperblk inodeBitmap, inodeBitmap.length = fsSuperblk.blockSize ∧
      fsSuperblk.sInodesPerGroup = 9 ∧ IsClear inodeBitmap 16 ∧
      ¬ (inodeScan fsSuperblk inodeBitmap).Lists "IFREE".toList 1 inodeBitmap 9 := by
  constructor
  · refine ⟨sampleSuperblk 64 0 2 64, ⟨0, 0⟩, List.replicate 4096 0, List.replicate 4096 0,
      List.length_replicate, List.length_replicate, by decide, by decide, rfl, fun hright => ?_⟩
    have hsize : (64 : UInt32).toNat ≤ 8 * (List.replicate 4096 (0 : BitVec 8)).length := by
      rw [List.length_replicate]
      decide
    have hblocks := hright.blocks
    rw [blocks_bitmapScans] at hblocks
    rcases ((scan_lists_iff _ _ (min_le_left _ _) hsize).1 hblocks).2 with hfirst | hnever
    · exact absurd hfirst (by decide)
    · exact hnever 0 (by decide) (isClear_replicate (by decide))
  · have hclear : IsClear (List.replicate 1024 0) 16 := isClear_replicate (by decide)
    refine ⟨sampleSuperblk 64 1 0 9, List.replicate 1024 0, List.length_replicate, rfl, hclear,
      fun hright => ?_⟩
    have hsize : (9 : UInt32).toNat ≤ 8 * (List.replicate 1024 (0 : BitVec 8)).length := by
      rw [List.length_replicate]
      decide
    exact ((scan_lists_iff _ _ le_rfl hsize).1 hright).1 16 (by decide) hclear (by decide)

end Coursework.FileSystem
