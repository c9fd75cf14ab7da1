import Coursework.FileSystem.Lab3a
import Mathlib.Algebra.Ring.Int.Defs

/-!
# The buffers of the block addresses

Each block address of an inode is formatted with `%d` and a comma in `blk_addr`, which has 8
characters, and appended to `blk_addrs`, which has 128. Fifteen addresses that fit the
first buffer always fit the second one. `fitsBuffers_iff` says which block addresses these are;
the loop over the inodes skips the ones that are not allocated.
Vocabulary and scope: `Coursework.FileSystem.Lab3a`.
-/

namespace Coursework.FileSystem

open Python Stdio

/-- A number is printed in few characters if it is small; the minus sign takes one of them. -/
theorem length_decimal_le_iff {n : Int} {k : Nat} (hk : 0 < k) :
    (decimal n).length ≤ k + 1 ↔ -10 ^ k < n ∧ n < 10 ^ (k + 1) := by
  have hle : (10 : Int) ^ k ≤ 10 ^ (k + 1) := by
    rw [Int.pow_succ]
    have : (0 : Int) ≤ 10 ^ k := Int.pow_nonneg (by decide)
    omega
  have hcast : ∀ j : Nat, n.natAbs < 10 ^ j ↔ (n.natAbs : Int) < 10 ^ j := by
    intro j
    rw [← Int.ofNat_lt]
    simp
  unfold decimal
  split
  case isTrue hneg =>
    rw [List.length_cons, Nat.add_le_add_iff_right,
      Nat.length_toDigits_le_iff (by decide) hk, hcast]
    omega
  case isFalse hneg =>
    rw [Nat.length_toDigits_le_iff (by decide) (Nat.succ_pos k), hcast]
    have : (0 : Int) ≤ 10 ^ k := Int.pow_nonneg (by decide)
    omega

/-- What is appended as long as there is room for seven characters. -/
theorem appendBlkAddr_eq {buffer : Text} (text : Text) (hroom : buffer.length + 7 < 128) :
    appendBlkAddr buffer text = if text.length < 8 then some (buffer ++ text) else none := by
  unfold appendBlkAddr sprintf
  split
  case isTrue hshort =>
    have hfits : (buffer ++ text).length < 128 := by
      rw [List.length_append]
      omega
    show strcat 128 buffer text = some (buffer ++ text)
    rw [strcat, sprintf, if_pos hfits]
  case isFalse => rfl

/-- The loop appends texts if each of them fits `blk_addr`. -/
theorem foldlM_appendBlkAddr_of_short {blocks : List UInt32} (f : UInt32 → Text) {buffer : Text}
    (hroom : buffer.length + 7 * blocks.length < 128)
    (hshort : ∀ block ∈ blocks, (f block).length < 8) :
    blocks.foldlM (fun blkAddrs block => appendBlkAddr blkAddrs (f block)) buffer =
      some (buffer ++ blocks.flatMap f) := by
  induction blocks generalizing buffer with
  | nil => simp
  | cons block blocks ih =>
      rw [List.length_cons] at hroom
      rw [List.forall_mem_cons] at hshort
      have hroom' : (buffer ++ f block).length + 7 * blocks.length < 128 := by
        rw [List.length_append]
        omega
      rw [List.foldlM_cons, appendBlkAddr_eq _ (by omega), if_pos hshort.1]
      show blocks.foldlM _ (buffer ++ f block) = _
      rw [ih hroom' hshort.2, List.flatMap_cons, List.append_assoc]

/-- A text that does not fit overflows it. -/
theorem foldlM_appendBlkAddr_of_long {blocks : List UInt32} (f : UInt32 → Text) {buffer : Text}
    (hroom : buffer.length + 7 * blocks.length < 128)
    (hlong : ¬ ∀ block ∈ blocks, (f block).length < 8) :
    blocks.foldlM (fun blkAddrs block => appendBlkAddr blkAddrs (f block)) buffer = none := by
  induction blocks generalizing buffer with
  | nil => exact absurd (by simp) hlong
  | cons block blocks ih =>
      rw [List.length_cons] at hroom
      rw [List.forall_mem_cons] at hlong
      rw [List.foldlM_cons, appendBlkAddr_eq _ (by omega)]
      by_cases hfirst : (f block).length < 8
      · have hroom' : (buffer ++ f block).length + 7 * blocks.length < 128 := by
          rw [List.length_append]
          omega
        rw [if_pos hfirst]
        show blocks.foldlM _ (buffer ++ f block) = _
        exact ih hroom' fun hrest => hlong ⟨hfirst, hrest⟩
      · rw [if_neg hfirst]
        rfl

theorem length_flatMap_le {blocks : List UInt32} {f : UInt32 → Text} {k : Nat}
    (h : ∀ block ∈ blocks, (f block).length ≤ k) :
    (blocks.flatMap f).length ≤ k * blocks.length := by
  induction blocks with
  | nil => exact Nat.zero_le _
  | cons block blocks ih =>
      rw [List.forall_mem_cons] at h
      rw [List.flatMap_cons, List.length_append, List.length_cons, Nat.mul_succ]
      have := ih h.2
      omega

/-- The addresses in front of the last one are short enough for a comma behind them, and the last
one is short enough. -/
def Ext2Inode.AddrsShort (inode : Ext2Inode) : Prop :=
  (∀ block ∈ inode.iBlock.toList.take 14, -99999 ≤ asInt block ∧ asInt block ≤ 999999) ∧
    -999999 ≤ asInt inode.tindBlock ∧ asInt inode.tindBlock ≤ 9999999

/-- Which addresses fit `blk_addr` with a comma. -/
theorem length_comma_lt_iff (block : UInt32) :
    (decimal (asInt block) ++ ",".toList).length < 8 ↔
      -99999 ≤ asInt block ∧ asInt block ≤ 999999 := by
  rw [List.length_append, show ",".toList.length = 1 from rfl]
  have := length_decimal_le_iff (n := asInt block) (k := 5) (by decide)
  omega

/-- And which ones do without it. -/
theorem length_last_lt_iff (block : UInt32) :
    (decimal (asInt block)).length < 8 ↔ -999999 ≤ asInt block ∧ asInt block ≤ 9999999 := by
  have := length_decimal_le_iff (n := asInt block) (k := 6) (by decide)
  omega

/-- The addresses are formatted exactly if each of them is short enough. -/
theorem blkAddrs_isSome_iff (inode : Ext2Inode) :
    (blkAddrs inode.iBlock).isSome ↔ inode.AddrsShort := by
  have hcount : (inode.iBlock.toList.take 14).length = 14 := by simp
  have hroom : ([] : Text).length + 7 * (inode.iBlock.toList.take 14).length < 128 := by
    rw [hcount]
    decide
  unfold Ext2Inode.AddrsShort
  rw [← length_last_lt_iff, blkAddrs]
  by_cases hshort : ∀ block ∈ inode.iBlock.toList.take 14,
      (decimal (asInt block) ++ ",".toList).length < 8
  · -- fourteen short texts leave room for the last one
    have hlength := length_flatMap_le (k := 7) fun block hblock =>
      Nat.le_of_lt_succ (hshort block hblock)
    rw [hcount] at hlength
    rw [foldlM_appendBlkAddr_of_short _ hroom hshort]
    show (appendBlkAddr _ (decimal (asInt inode.tindBlock))).isSome ↔ _
    rw [List.nil_append, appendBlkAddr_eq _ (by omega)]
    have hfront : ∀ block ∈ inode.iBlock.toList.take 14,
        -99999 ≤ asInt block ∧ asInt block ≤ 999999 :=
      fun block hblock => (length_comma_lt_iff block).mp (hshort block hblock)
    split
    case isTrue hend => exact iff_of_true rfl ⟨hfront, hend⟩
    case isFalse hend => exact iff_of_false (by simp) fun h => hend h.2
  · rw [foldlM_appendBlkAddr_of_long _ hroom hshort]
    refine iff_of_false (by simp) fun h => hshort fun block hblock => ?_
    exact (length_comma_lt_iff block).mpr (h.1 block hblock)

/-- The block addresses are formatted if they are not printed or each of them is short enough. -/
theorem printedBlkAddrs_isSome_iff (inode : Ext2Inode) :
    inode.printedBlkAddrs.isSome ↔ (inode.PrintsBlkAddrs → inode.AddrsShort) := by
  unfold Ext2Inode.printedBlkAddrs
  split
  case isTrue hprints => simp [blkAddrs_isSome_iff, hprints]
  case isFalse hprints => simp [hprints]

/-- What is formatted for the inode fits the buffers; only allocated inodes are printed. -/
def Ext2Inode.FitsBuffers (inode : Ext2Inode) : Prop :=
  inode.IsAllocated → inode.printedBlkAddrs.isSome

/-- The buffers are large enough exactly if the inode is not allocated, no block addresses are
printed for it, or each of them is short enough. -/
theorem fitsBuffers_iff (inode : Ext2Inode) :
    inode.FitsBuffers ↔ (inode.IsAllocated → inode.PrintsBlkAddrs → inode.AddrsShort) :=
  forall_congr' fun _ => printedBlkAddrs_isSome_iff inode

/-- A regular file whose first block has the number 1000000. -/
def millionInode : Ext2Inode :=
  ⟨0x81A4, 0, 1024, 0, 0, 0, 0, 1, 2, #v[1000000, 0, 0, 0, 0, 0, 0, 0, 0, 0, 0, 0, 0, 0, 0]⟩

/-- The number 1000000 and its comma do not fit. -/
theorem million_overflows : ¬ millionInode.FitsBuffers := by
  have hallocated : millionInode.IsAllocated := by decide
  have hnone : ¬ millionInode.printedBlkAddrs.isSome := by decide +kernel
  exact fun h => hnone (h hallocated)

end Coursework.FileSystem
