import Coursework.FileSystem.Passes
import Coursework.Text.Format

/-!
# What the auditor reports

Two properties of the audit of a well-formed summary: that it ends with the documented status
(`proper_iff`), and that it is silent on a consistent file system (`silent_iff`). Neither holds
for all summaries; each theorem gives the exact condition.
Vocabulary and scope: `Coursework.FileSystem.Passes`.
-/

namespace Coursework.FileSystem

open Python

variable {summary : Summary} {lines : List Text}

/-! ## The exit status -/

/-- The run ended without an exception, with status 2 if a line was printed and else 0. -/
def Outcome.Proper (outcome : Outcome) : Prop :=
  outcome.raised = none ∧ outcome.status = if outcome.printed = [] then 0 else 2

/-- The outcome when no broken message is due. -/
theorem lab3b_eq (h : parse lines = some summary) (hprint : summary.Printable) :
    lab3b lines = ⟨summary.messages, none, if summary.messages = [] then 0 else 2⟩ := by
  rw [lab3b, audit_eq h hprint, Report.printAll_eq]
  cases summary.messages <;> simp

/-- A broken message that is due shows in the outcome. -/
theorem lab3b_raised (h : parse lines = some summary) (hprint : ¬ summary.Printable) :
    (lab3b lines).raised ≠ none ∧ (lab3b lines).status = 1 := by
  obtain ⟨failure, hfailure⟩ := audit_error h hprint
  simp [lab3b, hfailure]

/-- The script runs to its end with the right status exactly when no message with an
unassigned name is due. -/
theorem proper_iff (h : parse lines = some summary) :
    (lab3b lines).Proper ↔ summary.Printable := by
  constructor
  · intro hproper
    by_contra hprint
    exact (lab3b_raised h hprint).1 hproper.1
  · intro hprint
    rw [lab3b_eq h hprint]
    exact ⟨rfl, rfl⟩

/-- A file system of ten blocks with the root directory in block 8 and block 9 free, and more rows
in front. Of its eleven inodes only the last is not reserved. -/
def sample (more : List Row) : Summary where
  superblock := ⟨10, 11, 1024, 128, 10, 11, 11⟩
  rows := more ++ [.bfree 9,
    .inode ⟨⟨2, "d".toList, 2, 2, [8, 0, 0, 0, 0, 0, 0, 0, 0, 0, 0, 0, 0, 0, 0]⟩, rfl⟩,
    .dirent ⟨2, 2, "'.'\n".toList⟩, .dirent ⟨2, 2, "'..'\n".toList⟩]

/-- A line with these fields. -/
def csvLine (fields : List String) : Text :=
  Stdio.csvRow (fields.map String.toList)

/-- Its summary file. -/
def sampleLines (more : List Text) : List Text :=
  csvLine ["SUPERBLOCK", "10", "11", "1024", "128", "10", "11", "11"] :: more ++ [
    csvLine ["BFREE", "9"],
    csvLine ["INODE", "2", "d", "0755", "0", "0", "2", "01/01/20 00:00:00", "01/01/20 00:00:00",
      "01/01/20 00:00:00", "1024", "2", "8", "0", "0", "0", "0", "0", "0", "0", "0", "0", "0", "0",
      "0", "0", "0"],
    csvLine ["DIRENT", "2", "0", "2", "12", "1", "'.'"],
    csvLine ["DIRENT", "2", "12", "2", "1012", "2", "'..'"]]

/-- The rows of the sample. -/
theorem parse_sampleLines (more : List Text) {rows : List Row}
    (h : more.mapM parseRow = some rows) : parse (sampleLines more) = some (sample rows) := by
  have hparse : ∀ first last : List Text, ∀ superblock : Superblk, ∀ tail : List Row,
      first.mapM parseRow = some rows → last.mapM parseRow = some tail →
      ∀ line, parseSuperblk line = some superblock →
      parse (line :: first ++ last) = some ⟨superblock, rows ++ tail⟩ := by
    intro first last superblock tail hfirst hlast line hline
    simp [parse, hfirst, hlast, hline]
  exact hparse _ _ _ _ h (by decide +kernel) _ (by decide +kernel)

/-- On the sample the script ends properly, so no broken message is due. -/
theorem sample_printable : (sample []).Printable :=
  (proper_iff (parse_sampleLines [] rfl)).1 (by unfold Outcome.Proper; decide +kernel)

/-- One more entry for the root directory, and its link count is wrong: the message about it
refers to `linkcount`. -/
theorem sample_not_proper : ∃ lines summary, parse lines = some summary ∧
    (lab3b lines).raised = some (.nameError "linkcount") ∧ ¬ (lab3b lines).Proper := by
  have hraised : (lab3b (sampleLines
      [csvLine ["DIRENT", "2", "24", "2", "12", "3", "'usr'"]])).raised =
        some (.nameError "linkcount") := by decide +kernel
  refine ⟨_, sample [.dirent ⟨2, 2, "'usr'\n".toList⟩], parse_sampleLines _ (by decide +kernel),
    hraised, fun hproper => ?_⟩
  rw [hproper.1] at hraised
  cases hraised

/-! ## The printed lines -/

/-- Some `INODE` row has this number. -/
def Summary.Allocated (summary : Summary) (ino : Int) : Prop :=
  ∃ count, (ino, count) ∈ linkCounts summary.rows

/-- The lines about a pointer. -/
theorem Pointer.mem_messages_iff {superblock : Superblk} {p : Pointer} {m : Message} :
    m ∈ p.messages superblock ↔
      (p.IsInvalid superblock ∧ m = .invalidBlock p.strlvl p.blockNum p.inodeNum p.offset) ∨
      (p.IsReserved ∧ m = .reservedBlock p.strlvl p.blockNum p.inodeNum p.offset) := by
  unfold Pointer.messages
  by_cases hinvalid : p.IsInvalid superblock <;> by_cases hreserved : p.IsReserved <;>
    simp [hinvalid, hreserved]

/-- The lines about an entry. -/
theorem Dirent.mem_messages_iff {superblock : Superblk} {d : Dirent} {m : Message} :
    m ∈ d.messages superblock ↔
      (¬ d.IsValid superblock ∧ m = .invalidInode d.parentInode
        (slice 0 (d.dirName.length - 2) d.dirName) d.inodeNum) ∨
      (d.IsValid superblock ∧ IsDot d.dirName ∧ d.parentInode ≠ d.inodeNum ∧
        m = .dotLink d.parentInode d.inodeNum) := by
  unfold Dirent.messages
  by_cases hvalid : d.IsValid superblock <;> by_cases hdot : IsDot d.dirName <;>
    by_cases hself : d.parentInode = d.inodeNum <;> simp [hvalid, hdot, hself]

/-- The lines about a block. -/
theorem mem_blockMessages_iff {blk : Int} {m : Message} :
    m ∈ blockMessages summary.read blk ↔
      (.bfree blk ∈ summary.rows ∧ refsTo summary.rows blk ≠ [] ∧ m = .allocatedBlock blk) ∨
      (.bfree blk ∉ summary.rows ∧ refsTo summary.rows blk = [] ∧ blk ∉ reservedBlocks ∧
        m = .unreferencedBlock blk) := by
  have hreads := reads_summary summary
  have hcontains : refsTo summary.rows blk = [] ↔ ¬ summary.read.blockDict.Contains blk := by
    rw [Dict.Contains, hreads.blockDict, refs?]
    split <;> simp [*]
  rw [← hreads.bfree, ne_eq, hcontains, not_not, blockMessages]
  by_cases hfree : blk ∈ summary.read.bfree <;>
    by_cases hrefs : summary.read.blockDict.Contains blk <;>
    by_cases hres : blk ∈ reservedBlocks <;> simp [hfree, hrefs, hres]

/-- The lines about an inode. -/
theorem mem_inodeMessages_iff {ino : Int} {m : Message} :
    m ∈ inodeMessages summary.read ino ↔
      (.ifree ino ∉ summary.rows ∧ ¬ summary.Allocated ino ∧
        (∀ d ∈ dirents summary.rows, d.IsLink summary.superblock → d.inodeNum ≠ ino) ∧
        ino ∉ reservedInodes ∧ m = .unallocatedInode ino) ∨
      (summary.Allocated ino ∧ .ifree ino ∈ summary.rows ∧ m = .allocatedInode ino) := by
  have hreads := reads_summary summary
  have hcounts : summary.Allocated ino ↔ summary.read.inodeDictLnkCnt.Contains ino := by
    rw [Dict.Contains, hreads.inodeDictLnkCnt, lastValue_isSome_iff]
    rfl
  have hlinks : (∀ d ∈ dirents summary.rows, d.IsLink summary.superblock → d.inodeNum ≠ ino) ↔
      ¬ summary.read.inodeDictLr.Contains ino := by
    rw [hreads.contains_link_iff]
    push Not
    rfl
  rw [← hreads.ifree, hcounts, hlinks, inodeMessages]
  by_cases hfree : ino ∈ summary.read.ifree <;>
    by_cases halloc : summary.read.inodeDictLnkCnt.Contains ino <;>
    by_cases hlink : summary.read.inodeDictLr.Contains ino <;>
    by_cases hres : ino ∈ reservedInodes <;> simp [hfree, halloc, hlink, hres]

/-- The line about the `..` entry of a directory. -/
theorem mem_parentMessages_iff {dir target : Int} {m : Message} :
    m ∈ parentMessages summary.read (dir, target) ↔
      (dir = 2 ∧ target ≠ 2 ∧ m = .rootParent target) ∨
      (dir ≠ 2 ∧ lastValue (links summary.superblock summary.rows) dir = none ∧
        m = .orphanParent target dir) ∨
      (dir ≠ 2 ∧ ∃ expected,
        lastValue (links summary.superblock summary.rows) dir = some expected ∧
          target ≠ expected ∧ m = .wrongParent dir expected) := by
  have hreads := reads_summary summary
  simp only [parentMessages, hreads.inodeDictLr]
  by_cases hroot : dir = 2
  · by_cases htarget : target = 2 <;> simp [hroot, htarget]
  · cases lastValue (links summary.superblock summary.rows) dir with
    | none => simp [hroot]
    | some expected => by_cases htarget : target = expected <;> simp [hroot, htarget]

/-- The lines about a row. -/
theorem mem_row_messages_iff {m : Message} :
    m ∈ summary.rows.flatMap (Row.messages summary.superblock) ↔
      (∃ p ∈ pointers summary.rows, m ∈ p.messages summary.superblock) ∨
        ∃ d ∈ dirents summary.rows, m ∈ d.messages summary.superblock := by
  have hrow : ∀ row : Row, m ∈ row.messages summary.superblock ↔
      (∃ p ∈ row.pointers, m ∈ p.messages summary.superblock) ∨
        ∃ d, row.dirent? = some d ∧ m ∈ d.messages summary.superblock := by
    intro row
    cases row <;> simp [Row.messages, Row.pointers, Row.dirent?]
  simp only [List.mem_flatMap, hrow, pointers, dirents, List.mem_filterMap]
  constructor
  · rintro ⟨row, hmem, ⟨p, hp, hm⟩ | ⟨d, hd, hm⟩⟩
    · exact .inl ⟨p, ⟨row, hmem, hp⟩, hm⟩
    · exact .inr ⟨d, ⟨row, hmem, hd⟩, hm⟩
  · rintro (⟨p, ⟨row, hmem, hp⟩, hm⟩ | ⟨d, ⟨row, hmem, hd⟩, hm⟩)
    · exact ⟨row, hmem, .inl ⟨p, hp, hm⟩⟩
    · exact ⟨row, hmem, .inr ⟨d, hd, hm⟩⟩

/-- All lines printed for a summary. -/
theorem mem_messages_iff {m : Message} :
    m ∈ summary.messages ↔
      (∃ p ∈ pointers summary.rows, m ∈ p.messages summary.superblock) ∨
      (∃ d ∈ dirents summary.rows, m ∈ d.messages summary.superblock) ∨
      (∃ blk, 1 ≤ blk ∧ blk ≤ summary.superblock.blkCnt ∧
        m ∈ blockMessages summary.read blk) ∨
      (∃ ino, 1 ≤ ino ∧ ino ≤ summary.superblock.inoCnt ∧
        m ∈ inodeMessages summary.read ino) ∨
      ∃ dir target, lastValue (parents summary.superblock summary.rows) dir = some target ∧
        m ∈ parentMessages summary.read (dir, target) := by
  have hentries : (∃ entry ∈ summary.read.inodeDictParents.entries,
      m ∈ parentMessages summary.read entry) ↔
        ∃ dir target, lastValue (parents summary.superblock summary.rows) dir = some target ∧
          m ∈ parentMessages summary.read (dir, target) := by
    simp only [Prod.exists, Dict.mem_entries_iff, (reads_summary summary).inodeDictParents]
  rw [Summary.messages, List.mem_append, List.mem_append, List.mem_append, mem_row_messages_iff,
    List.mem_flatMap, List.mem_flatMap, List.mem_flatMap, hentries]
  simp only [mem_rangeFromOne, Int.lt_add_one_iff, and_assoc, or_assoc]

section Lines

variable {m : Message}

theorem mem_messages_of_pointer {p : Pointer} (hp : p ∈ pointers summary.rows)
    (hm : m ∈ p.messages summary.superblock) : m ∈ summary.messages :=
  mem_messages_iff.2 (.inl ⟨p, hp, hm⟩)

theorem mem_messages_of_dirent {d : Dirent} (hd : d ∈ dirents summary.rows)
    (hm : m ∈ d.messages summary.superblock) : m ∈ summary.messages :=
  mem_messages_iff.2 (.inr (.inl ⟨d, hd, hm⟩))

theorem mem_messages_of_block {blk : Int} (hlow : 1 ≤ blk) (hhigh : blk ≤ summary.superblock.blkCnt)
    (hm : m ∈ blockMessages summary.read blk) : m ∈ summary.messages :=
  mem_messages_iff.2 (.inr (.inr (.inl ⟨blk, hlow, hhigh, hm⟩)))

theorem mem_messages_of_inode {ino : Int} (hlow : 1 ≤ ino) (hhigh : ino ≤ summary.superblock.inoCnt)
    (hm : m ∈ inodeMessages summary.read ino) : m ∈ summary.messages :=
  mem_messages_iff.2 (.inr (.inr (.inr (.inl ⟨ino, hlow, hhigh, hm⟩))))

theorem mem_messages_of_parent {dir target : Int}
    (hparent : lastValue (parents summary.superblock summary.rows) dir = some target)
    (hm : m ∈ parentMessages summary.read (dir, target)) : m ∈ summary.messages :=
  mem_messages_iff.2 (.inr (.inr (.inr (.inr ⟨dir, target, hparent, hm⟩))))

end Lines

/-! ## Consistent file systems -/

/-- The name field of an entry called `name`: in quotes, with the line end if it comes last. -/
def Dirent.IsCalled (d : Dirent) (name : Text) : Prop :=
  d.dirName = "'".toList ++ name ++ "'".toList ∨ d.dirName = "'".toList ++ name ++ "'\n".toList

/-- An entry that is neither `.` nor `..`. -/
def Dirent.IsOrdinary (d : Dirent) : Prop :=
  ¬ d.IsCalled ".".toList ∧ ¬ d.IsCalled "..".toList

instance (d : Dirent) (name : Text) : Decidable (d.IsCalled name) :=
  inferInstanceAs (Decidable (_ ∨ _))

instance (d : Dirent) : Decidable d.IsOrdinary :=
  inferInstanceAs (Decidable (_ ∧ _))

/-- A consistent file system of one group whose metadata occupies the blocks 0 to 7. -/
structure Summary.Consistent (summary : Summary) : Prop where
  metadata : 8 ≤ summary.superblock.blkCnt
  block_state : ∀ blk, 8 ≤ blk → blk < summary.superblock.blkCnt →
    ((freeBlocks summary.rows).count blk = 1 ∧
      (pointers summary.rows).countP (·.blockNum = blk) = 0) ∨
    ((freeBlocks summary.rows).count blk = 0 ∧
      (pointers summary.rows).countP (·.blockNum = blk) = 1)
  pointer_range : ∀ p ∈ pointers summary.rows,
    8 ≤ p.blockNum ∧ p.blockNum < summary.superblock.blkCnt
  inode_range : ∀ ino, summary.Allocated ino → 1 ≤ ino ∧ ino ≤ summary.superblock.inoCnt
  inode_state : ∀ ino, 1 ≤ ino → ino ≤ summary.superblock.inoCnt → ino ∉ reservedInodes →
    summary.Allocated ino ∨ .ifree ino ∈ summary.rows
  inode_not_both : ∀ ino, summary.Allocated ino → .ifree ino ∉ summary.rows
  entry_allocated : ∀ d ∈ dirents summary.rows, summary.Allocated d.inodeNum
  link_count : ∀ ino count, (ino, count) ∈ linkCounts summary.rows →
    count = linkNumber summary.rows ino
  dot_right : ∀ d ∈ dirents summary.rows, d.IsCalled ".".toList → d.parentInode = d.inodeNum
  root_right : ∀ d ∈ dirents summary.rows, d.IsCalled "..".toList → d.parentInode = 2 →
    d.inodeNum = 2
  parent_right : ∀ d ∈ dirents summary.rows, d.IsCalled "..".toList → d.parentInode ≠ 2 →
    (∃ e ∈ dirents summary.rows, e.IsOrdinary ∧ e.inodeNum = d.parentInode) ∧
      ∀ e ∈ dirents summary.rows, e.IsOrdinary → e.inodeNum = d.parentInode →
        e.parentInode = d.inodeNum

/-- What keeps the auditor silent on a consistent file system. The last two fields are about the
entries that the script takes for `.` and `..` by the first characters of their names. -/
structure Summary.Unalarming (summary : Summary) : Prop where
  last_block : summary.superblock.blkCnt = 64 ∨ .bfree summary.superblock.blkCnt ∈ summary.rows
  block_64 : ∀ p ∈ pointers summary.rows, p.blockNum ≠ 64
  dots : ∀ d ∈ dirents summary.rows, IsDot d.dirName → d.parentInode = d.inodeNum
  parents : ∀ dir target, lastValue (parents summary.superblock summary.rows) dir = some target →
    (dir = 2 → target = 2) ∧
      (dir ≠ 2 → lastValue (links summary.superblock summary.rows) dir = some target)

/-- The run ended with status 0 and without an inconsistency line. -/
def Outcome.Silent (outcome : Outcome) : Prop :=
  outcome.printed = [] ∧ outcome.raised = none ∧ outcome.status = 0

/-- The prefix test recognises `.`. -/
theorem Dirent.IsCalled.isDot {d : Dirent} (h : d.IsCalled ".".toList) : IsDot d.dirName := by
  rcases h with h | h <;> rw [h] <;> decide

/-- The prefix tests recognise `..`. -/
theorem Dirent.IsCalled.isDotDot {d : Dirent} (h : d.IsCalled "..".toList) :
    ¬ IsDot d.dirName ∧ IsDotDot d.dirName := by
  rcases h with h | h <;> rw [h] <;> decide

/-- The last parent entry of a directory. -/
theorem exists_of_parent {dir target : Int}
    (h : lastValue (parents summary.superblock summary.rows) dir = some target) :
    ∃ d ∈ dirents summary.rows, d.IsParent summary.superblock ∧ d.parentInode = dir ∧
      d.inodeNum = target := by
  simpa [parents, and_assoc] using mem_of_lastValue h

/-- The last link of an inode. -/
theorem exists_of_link {ino dir : Int}
    (h : lastValue (links summary.superblock summary.rows) ino = some dir) :
    ∃ d ∈ dirents summary.rows, d.IsLink summary.superblock ∧ d.inodeNum = ino ∧
      d.parentInode = dir := by
  simpa [links, and_assoc] using mem_of_lastValue h

namespace Summary.Consistent

/-- Every entry names a valid inode. -/
theorem entry_valid (hc : summary.Consistent) {d : Dirent} (hd : d ∈ dirents summary.rows) :
    d.IsValid summary.superblock :=
  hc.inode_range _ (hc.entry_allocated d hd)

/-- A free block has no references. -/
theorem refs_of_bfree (hc : summary.Consistent) {blk : Int} (h : .bfree blk ∈ summary.rows) :
    refsTo summary.rows blk = [] := by
  have hfree : blk ∈ freeBlocks summary.rows := by
    rw [freeBlocks, List.mem_filterMap]
    exact ⟨_, h, rfl⟩
  rw [refsTo, List.map_eq_nil_iff, List.filter_eq_nil_iff]
  intro p hp
  simp only [decide_eq_true_eq, not_and]
  rintro - rfl
  obtain ⟨hlow, hhigh⟩ := hc.pointer_range p hp
  have hpos := List.count_pos_iff.2 hfree
  have hnone : (pointers summary.rows).countP (·.blockNum = p.blockNum) = 0 := by
    rcases hc.block_state p.blockNum hlow hhigh with ⟨-, hzero⟩ | ⟨hzero, -⟩ <;> omega
  simpa using List.countP_eq_zero.1 hnone p hp

/-- A block of the group that is neither free nor reserved has a reference. -/
theorem refs_of_not_bfree (hc : summary.Consistent) {blk : Int} (hlow : 1 ≤ blk)
    (hhigh : blk < summary.superblock.blkCnt) (hfree : .bfree blk ∉ summary.rows)
    (hres : blk ∉ reservedBlocks) : refsTo summary.rows blk ≠ [] := by
  have height : 8 ≤ blk := by
    by_contra hlt
    have hsmall : ∀ k : Nat, k < 8 → (k : Int) ∈ reservedBlocks := by decide
    have hmem := hsmall blk.toNat (by omega)
    rw [Int.toNat_of_nonneg (by omega)] at hmem
    exact hres hmem
  have hcount : (freeBlocks summary.rows).count blk = 0 := by
    rw [List.count_eq_zero, freeBlocks, List.mem_filterMap]
    intro ⟨row, hrow, heq⟩
    cases row <;> cases heq
    exact hfree hrow
  have hone : (pointers summary.rows).countP (·.blockNum = blk) = 1 := by
    rcases hc.block_state blk height hhigh with ⟨hone, -⟩ | ⟨-, hone⟩
    · omega
    · exact hone
  obtain ⟨p, hp, hblock⟩ := List.countP_pos_iff.1 (show 0 < _ by rw [hone]; decide)
  rw [decide_eq_true_eq] at hblock
  have hnot : ¬ p.IsReserved := fun h => hres (hblock ▸ h.2)
  refine List.ne_nil_of_mem (List.mem_map_of_mem (List.mem_filter.2 ⟨hp, ?_⟩))
  simp [hnot, hblock]

/-- No block has two references. -/
theorem refs_length (hc : summary.Consistent) (blk : Int) :
    (refsTo summary.rows blk).length ≤ 1 := by
  have hle : (refsTo summary.rows blk).length ≤
      (pointers summary.rows).countP (·.blockNum = blk) := by
    rw [refsTo, List.length_map, ← List.countP_eq_length_filter]
    exact List.countP_mono_left fun p _ => by simp
  by_cases hrange : 8 ≤ blk ∧ blk < summary.superblock.blkCnt
  · rcases hc.block_state blk hrange.1 hrange.2 with ⟨-, hcount⟩ | ⟨-, hcount⟩ <;> omega
  · have hzero : (pointers summary.rows).countP (·.blockNum = blk) = 0 := by
      rw [List.countP_eq_zero]
      intro p hp hblock
      rw [decide_eq_true_eq] at hblock
      exact hrange (hblock ▸ hc.pointer_range p hp)
    omega

/-- No broken message is due on a consistent file system. -/
theorem printable (hc : summary.Consistent) : summary.Printable where
  links_counted ino count h := hc.link_count ino count (mem_of_lastValue h)
  no_free_reference d hd _ := hc.inode_not_both _ (hc.entry_allocated d hd)
  no_duplicate := hc.refs_length

/-- Where only `.` and `..` look like them, the last two conditions of `Unalarming` hold. -/
theorem taken_right (hc : summary.Consistent)
    (hnames : ∀ d ∈ dirents summary.rows, d.IsOrdinary → ¬ IsDot d.dirName ∧ ¬ IsDotDot d.dirName) :
    (∀ d ∈ dirents summary.rows, IsDot d.dirName → d.parentInode = d.inodeNum) ∧
      ∀ dir target, lastValue (parents summary.superblock summary.rows) dir = some target →
        (dir = 2 → target = 2) ∧
          (dir ≠ 2 → lastValue (links summary.superblock summary.rows) dir = some target) := by
  have hcalled : ∀ d ∈ dirents summary.rows, IsDot d.dirName ∨ IsDotDot d.dirName →
      d.IsCalled ".".toList ∨ d.IsCalled "..".toList := by
    intro d hd htaken
    by_contra hnot
    rw [not_or] at hnot
    obtain ⟨hdot, hdots⟩ := hnames d hd hnot
    exact htaken.elim hdot hdots
  refine ⟨fun d hd hdot => ?_, fun dir target hlast => ?_⟩
  · rcases hcalled d hd (.inl hdot) with h | h
    · exact hc.dot_right d hd h
    · exact (h.isDotDot.1 hdot).elim
  -- the entry that was taken for `..` is called `..`
  · obtain ⟨d, hd, ⟨-, hnotdot, hdots⟩, rfl, rfl⟩ := exists_of_parent hlast
    have hname : d.IsCalled "..".toList := by
      rcases hcalled d hd (.inr hdots) with h | h
      · exact (hnotdot h.isDot).elim
      · exact h
    refine ⟨hc.root_right d hd hname, fun hroot => ?_⟩
    obtain ⟨⟨e, he, hordinary, hnum⟩, hall⟩ := hc.parent_right d hd hname hroot
    have hlink : e.IsLink summary.superblock := ⟨hc.entry_valid he, hnames e he hordinary⟩
    have hsome : (lastValue (links summary.superblock summary.rows) d.parentInode).isSome := by
      rw [lastValue_isSome_iff]
      refine ⟨e.parentInode, List.mem_map.2 ⟨e, List.mem_filter.2 ⟨he, by simpa using hlink⟩, ?_⟩⟩
      rw [hnum]
    obtain ⟨expected, hexpected⟩ := Option.isSome_iff_exists.1 hsome
    obtain ⟨f, hf, ⟨-, hfdot, hfdots⟩, hfnum, rfl⟩ := exists_of_link hexpected
    have hfordinary : f.IsOrdinary := ⟨fun h => hfdot h.isDot, fun h => hfdots h.isDotDot.2⟩
    rw [hexpected, hall f hf hfordinary hfnum]

/-- The only line due about a pointer says that block 64 is reserved. -/
theorem mem_pointer_messages_iff (hc : summary.Consistent) {p : Pointer}
    (hp : p ∈ pointers summary.rows) (m : Message) :
    m ∈ p.messages summary.superblock ↔
      p.blockNum = 64 ∧ m = .reservedBlock p.strlvl p.blockNum p.inodeNum p.offset := by
  obtain ⟨hlow, hhigh⟩ := hc.pointer_range p hp
  have hvalid : ¬ p.IsInvalid summary.superblock := by
    unfold Pointer.IsInvalid
    omega
  have hreserved : p.IsReserved ↔ p.blockNum = 64 := by
    simp only [Pointer.IsReserved, reservedBlocks, List.mem_cons, List.not_mem_nil, or_false]
    omega
  rw [Pointer.mem_messages_iff, hreserved]
  simp [hvalid]

/-- The only line due about an entry is about `.`. -/
theorem mem_dirent_messages_iff (hc : summary.Consistent) {d : Dirent}
    (hd : d ∈ dirents summary.rows) (m : Message) :
    m ∈ d.messages summary.superblock ↔
      IsDot d.dirName ∧ d.parentInode ≠ d.inodeNum ∧ m = .dotLink d.parentInode d.inodeNum := by
  rw [Dirent.mem_messages_iff]
  simp [hc.entry_valid hd]

/-- The block behind the last one of the group is unreferenced. -/
theorem refs_of_last (hc : summary.Consistent) :
    refsTo summary.rows summary.superblock.blkCnt = [] := by
  rw [refsTo, List.map_eq_nil_iff, List.filter_eq_nil_iff]
  intro p hp
  have hrange := (hc.pointer_range p hp).2
  simp only [decide_eq_true_eq, not_and]
  omega

/-- If no line is due, nothing is alarming. -/
theorem unalarming_of_silent (hc : summary.Consistent) (hsilent : ∀ m, m ∉ summary.messages) :
    summary.Unalarming := by
  refine ⟨?_, fun p hp h64 => ?_, fun d hd hdot => ?_, fun dir target hlast => ?_⟩
  · by_contra hlast
    rw [not_or] at hlast
    have hmetadata := hc.metadata
    have hres : summary.superblock.blkCnt ∉ reservedBlocks := by
      simp only [reservedBlocks, List.mem_cons, List.not_mem_nil, or_false]
      omega
    -- the loop over the blocks also passes the number behind the last one
    have hdue := mem_blockMessages_iff.2 (.inr ⟨hlast.2, hc.refs_of_last, hres, rfl⟩)
    exact hsilent _ (mem_messages_of_block (by omega) le_rfl hdue)
  · have hdue := (hc.mem_pointer_messages_iff hp _).2 ⟨h64, rfl⟩
    exact hsilent _ (mem_messages_of_pointer hp hdue)
  · by_contra hself
    have hdue := (hc.mem_dirent_messages_iff hd _).2 ⟨hdot, hself, rfl⟩
    exact hsilent _ (mem_messages_of_dirent hd hdue)
  · have hparent : ∀ m, m ∉ parentMessages summary.read (dir, target) := fun m hm =>
      hsilent m (mem_messages_of_parent hlast hm)
    refine ⟨fun hroot => ?_, fun hroot => ?_⟩
    · by_contra htarget
      exact hparent _ (mem_parentMessages_iff.2 (.inl ⟨hroot, htarget, rfl⟩))
    · cases hlink : lastValue (links summary.superblock summary.rows) dir with
      | none =>
          exact (hparent _ (mem_parentMessages_iff.2 (.inr (.inl ⟨hroot, hlink, rfl⟩)))).elim
      | some expected =>
          by_contra hne
          exact hparent _ (mem_parentMessages_iff.2 (.inr (.inr
            ⟨hroot, expected, hlink, fun heq => hne (heq ▸ rfl), rfl⟩)))

/-- If nothing is alarming, no line is due. -/
theorem silent_of_unalarming (hc : summary.Consistent) (hcond : summary.Unalarming) :
    ∀ m, m ∉ summary.messages := by
  intro m hm
  rcases mem_messages_iff.1 hm with ⟨p, hp, hm⟩ | ⟨d, hd, hm⟩ | ⟨blk, hlow, hhigh, hm⟩ |
    ⟨ino, hlow, hhigh, hm⟩ | ⟨dir, target, hlast, hm⟩
  -- pointers and entries
  · exact hcond.block_64 p hp ((hc.mem_pointer_messages_iff hp m).1 hm).1
  · obtain ⟨hdot, hself, -⟩ := (hc.mem_dirent_messages_iff hd m).1 hm
    exact hself (hcond.dots d hd hdot)
  -- blocks and inodes
  · rcases mem_blockMessages_iff.1 hm with ⟨hfree, hrefs, -⟩ | ⟨hfree, hrefs, hres, -⟩
    · exact hrefs (hc.refs_of_bfree hfree)
    · rcases lt_or_eq_of_le hhigh with hlt | rfl
      · exact hc.refs_of_not_bfree hlow hlt hfree hres hrefs
      · rcases hcond.last_block with h64 | hlisted
        · exact hres (h64 ▸ by decide)
        · exact hfree hlisted
  · rcases mem_inodeMessages_iff.1 hm with ⟨hfree, halloc, -, hres, -⟩ | ⟨halloc, hfree, -⟩
    · exact (hc.inode_state ino hlow hhigh hres).elim halloc hfree
    · exact hc.inode_not_both ino halloc hfree
  -- the directories and their parents
  · obtain ⟨hroot, hother⟩ := hcond.parents dir target hlast
    rcases mem_parentMessages_iff.1 hm with ⟨hdir, htarget, -⟩ | ⟨hdir, hlink, -⟩ |
      ⟨hdir, expected, hlink, hne, -⟩
    · exact htarget (hroot hdir)
    · cases (hother hdir).symm.trans hlink
    · exact hne (Option.some.inj ((hother hdir).symm.trans hlink))

/-- The lines due on a consistent file system. -/
theorem messages_eq_nil_iff (hc : summary.Consistent) :
    summary.messages = [] ↔ summary.Unalarming := by
  rw [List.eq_nil_iff_forall_not_mem]
  exact ⟨hc.unalarming_of_silent, hc.silent_of_unalarming⟩

end Summary.Consistent

/-- On a consistent file system the auditor is silent exactly when the first block number behind
the file system is 64 or listed as free, no pointer refers to block 64, and the entries taken for
`.` and `..` are right as such. -/
theorem silent_iff (h : parse lines = some summary) (hc : summary.Consistent) :
    (lab3b lines).Silent ↔ summary.Unalarming := by
  rw [← hc.messages_eq_nil_iff, lab3b_eq h hc.printable]
  simp only [Outcome.Silent, true_and]
  exact ⟨fun hsilent => hsilent.1, fun hnil => ⟨hnil, if_pos hnil⟩⟩

/-- With inode 11 on the free list the sample is consistent, also if there are rows about blocks
behind the file system. -/
theorem sample_consistent (blks : List Int) (h : ∀ blk ∈ blks, 10 ≤ blk) :
    (sample (.ifree 11 :: blks.map .bfree)).Consistent := by
  have hfree : freeBlocks (sample (.ifree 11 :: blks.map .bfree)).rows = blks ++ [9] := by
    have hsome : (Row.ifree 11 :: blks.map Row.bfree).filterMap Row.bfree? = blks := by
      simp [List.filterMap_cons, List.filterMap_map, Function.comp_def, Row.bfree?]
    rw [freeBlocks, sample, List.filterMap_append, hsome]
    rfl
  have hcounts : linkCounts (sample (.ifree 11 :: blks.map .bfree)).rows = [(2, 2)] := by
    have hnone : (.ifree 11 :: blks.map Row.bfree).filterMap Row.linkCount? = [] := by
      simp [Row.linkCount?]
    rw [linkCounts, sample, List.filterMap_append, hnone]
    decide
  have hdirents : dirents (sample (.ifree 11 :: blks.map .bfree)).rows =
      [⟨2, 2, "'.'\n".toList⟩, ⟨2, 2, "'..'\n".toList⟩] := by
    have hnone : (.ifree 11 :: blks.map Row.bfree).filterMap Row.dirent? = [] := by
      simp [Row.dirent?]
    rw [dirents, sample, List.filterMap_append, hnone]
    decide
  have hpointers : pointers (sample (.ifree 11 :: blks.map .bfree)).rows = [⟨[], 8, 2, 0, 0⟩] := by
    have hnone : (.ifree 11 :: blks.map Row.bfree).flatMap Row.pointers = [] := by
      simp [List.flatMap_map, Row.pointers]
    rw [pointers, sample, List.flatMap_append, hnone]
    decide
  have hsuper : (sample (.ifree 11 :: blks.map .bfree)).superblock =
    ⟨10, 11, 1024, 128, 10, 11, 11⟩ := rfl
  have halloc : ∀ ino, (sample (.ifree 11 :: blks.map .bfree)).Allocated ino ↔ ino = 2 := by
    simp [Summary.Allocated, hcounts]
  have hifree : ∀ ino, .ifree ino ∈ (sample (.ifree 11 :: blks.map .bfree)).rows ↔ ino = 11 := by
    simp [sample]
  constructor <;> simp only [hsuper, hpointers, hdirents, hcounts, hfree, halloc, hifree,
    linkNumber, List.forall_mem_cons]
  case metadata => decide
  case block_state =>
    intro blk hlow hhigh
    have hnot : blk ∉ blks := fun hmem => by
      have := h blk hmem
      omega
    rcases (show blk = 8 ∨ blk = 9 by omega) with rfl | rfl <;>
      simp [List.count_append, List.count_eq_zero.2 hnot]
  case inode_state =>
    intro ino hlow hhigh hres
    refine .inr ?_
    simp only [reservedInodes, List.mem_cons, List.not_mem_nil, or_false] at hres
    omega
  case link_count =>
    intro ino count hmem
    obtain ⟨rfl, rfl⟩ : ino = 2 ∧ count = 2 := by simpa using hmem
    decide
  all_goals simp

/-- With a row about the block behind the file system the auditor is silent on the sample. -/
theorem sample_silent :
    (lab3b (sampleLines [csvLine ["IFREE", "11"], csvLine ["BFREE", "10"]])).Silent := by
  have hc := sample_consistent [10] (by decide)
  refine (silent_iff (parse_sampleLines _ (by decide +kernel)) hc).2 ⟨?_, ?_, ?_, ?_⟩
  · exact .inr (by decide)
  · decide
  · decide
  · exact (hc.taken_right (by decide)).2

/-- Without it the auditor reports that block as unreferenced. -/
theorem sample_not_silent : ∃ lines summary, parse lines = some summary ∧ summary.Consistent ∧
    (lab3b lines).printed = [.unreferencedBlock 10] ∧ ¬ (lab3b lines).Silent := by
  have hprinted : (lab3b (sampleLines [csvLine ["IFREE", "11"]])).printed =
      [.unreferencedBlock 10] := by decide +kernel
  refine ⟨_, sample [.ifree 11], parse_sampleLines _ (by decide +kernel),
    sample_consistent [] (by simp), hprinted, fun hsilent => ?_⟩
  rw [hsilent.1] at hprinted
  cases hprinted

end Coursework.FileSystem
