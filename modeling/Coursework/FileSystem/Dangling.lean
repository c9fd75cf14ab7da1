import Coursework.FileSystem.Correctness

/-!
# Entries that name an unallocated inode

A directory entry that names an inode without an `INODE` row falls between two passes: the inode
pass leaves it to the pass over the references, and that pass ends the run if the inode is on
the free list and else leaves it to the inode pass. `noticed_iff` gives the summaries on which
the script nevertheless prints a line about the inode and ends with status 2.
Vocabulary and scope: `Coursework.FileSystem.Correctness`.
-/

namespace Coursework.FileSystem

open Python

variable {summary : Summary} {lines : List Text} {i : Int}

/-- An ordinary entry names `i`, which is a valid inode without an `INODE` row. -/
structure Summary.Dangling (summary : Summary) (i : Int) : Prop where
  valid : 1 ≤ i ∧ i ≤ summary.superblock.inoCnt
  unallocated : ¬ summary.Allocated i
  named : ∃ d ∈ dirents summary.rows, d.IsOrdinary ∧ d.inodeNum = i

/-- The line is about inode `i`. -/
def Message.Concerns (i : Int) : Message → Prop
  | .invalidBlock _ _ inodeNum _ => inodeNum = i
  | .reservedBlock _ _ inodeNum _ => inodeNum = i
  | .invalidInode parentInode _ inodeNum => parentInode = i ∨ inodeNum = i
  | .dotLink parentInode inodeNum => parentInode = i ∨ inodeNum = i
  | .allocatedBlock _ => False
  | .unreferencedBlock _ => False
  | .unallocatedInode ino => ino = i
  | .allocatedInode ino => ino = i
  | .rootParent target => 2 = i ∨ target = i
  | .orphanParent target parent => parent = i ∨ target = i
  | .wrongParent parent expected => parent = i ∨ expected = i

/-- The run printed a line about inode `i` and ended with status 2. -/
def Outcome.Noticed (outcome : Outcome) (i : Int) : Prop :=
  (∃ m ∈ outcome.printed, m.Concerns i) ∧ outcome.status = 2

/-- The rows give rise to a line about inode `i`. Only `unlinked` is about its allocation, and
no entry taken for a link may name it there. -/
inductive Summary.Mentions (summary : Summary) (i : Int) : Prop where
  | invalidBlock (p : Pointer) (hp : p ∈ pointers summary.rows)
      (hinvalid : p.IsInvalid summary.superblock) (howner : p.inodeNum = i)
  | reservedBlock (p : Pointer) (hp : p ∈ pointers summary.rows)
      (hreserved : p.IsReserved) (howner : p.inodeNum = i)
  | invalidInode (d : Dirent) (hd : d ∈ dirents summary.rows)
      (hinvalid : ¬ d.IsValid summary.superblock) (hdir : d.parentInode = i)
  | dotLink (d : Dirent) (hd : d ∈ dirents summary.rows) (hvalid : d.IsValid summary.superblock)
      (hdot : IsDot d.dirName) (hwrong : d.parentInode ≠ d.inodeNum)
      (hends : d.parentInode = i ∨ d.inodeNum = i)
  | unlinked (hfree : .ifree i ∉ summary.rows)
      (hlinks : ∀ d ∈ dirents summary.rows, d.IsLink summary.superblock → d.inodeNum ≠ i)
      (hreserved : i ∉ reservedInodes)
  | rootParent (target : Int)
      (hparent : lastValue (parents summary.superblock summary.rows) 2 = some target)
      (hwrong : target ≠ 2) (hends : 2 = i ∨ target = i)
  | orphanParent (dir target : Int)
      (hparent : lastValue (parents summary.superblock summary.rows) dir = some target)
      (hroot : dir ≠ 2) (hlink : lastValue (links summary.superblock summary.rows) dir = none)
      (hends : dir = i ∨ target = i)
  | wrongParent (dir target expected : Int)
      (hparent : lastValue (parents summary.superblock summary.rows) dir = some target)
      (hroot : dir ≠ 2)
      (hlink : lastValue (links summary.superblock summary.rows) dir = some expected)
      (hwrong : target ≠ expected) (hends : dir = i ∨ expected = i)

/-- A printed line about an inode without an `INODE` row. -/
theorem mentions_of_concerns (hlow : 1 ≤ i) (hhigh : i ≤ summary.superblock.inoCnt)
    (halloc : ¬ summary.Allocated i) {m : Message} (hm : m ∈ summary.messages)
    (hconcerns : m.Concerns i) : summary.Mentions i := by
  rcases mem_messages_iff.1 hm with ⟨p, hp, hm⟩ | ⟨d, hd, hm⟩ | ⟨blk, -, -, hm⟩ |
    ⟨ino, -, -, hm⟩ | ⟨dir, target, hlast, hm⟩
  · rcases Pointer.mem_messages_iff.1 hm with ⟨hinvalid, rfl⟩ | ⟨hreserved, rfl⟩
    · exact .invalidBlock p hp hinvalid hconcerns
    · exact .reservedBlock p hp hreserved hconcerns
  · rcases Dirent.mem_messages_iff.1 hm with ⟨hinvalid, rfl⟩ | ⟨hvalid, hdot, hwrong, rfl⟩
    · rcases hconcerns with hdir | hnum
      · exact .invalidInode d hd hinvalid hdir
      · -- the entry would name the valid inode `i`
        exact (hinvalid ⟨hnum ▸ hlow, hnum ▸ hhigh⟩).elim
    · exact .dotLink d hd hvalid hdot hwrong hconcerns
  · rcases mem_blockMessages_iff.1 hm with ⟨-, -, rfl⟩ | ⟨-, -, -, rfl⟩
    · exact hconcerns.elim
    · exact hconcerns.elim
  · rcases mem_inodeMessages_iff.1 hm with ⟨hfree, -, hlinks, hreserved, rfl⟩ |
      ⟨hino, -, rfl⟩
    · obtain rfl : ino = i := hconcerns
      exact .unlinked hfree hlinks hreserved
    · obtain rfl : ino = i := hconcerns
      exact (halloc hino).elim
  · rcases mem_parentMessages_iff.1 hm with ⟨rfl, hwrong, rfl⟩ | ⟨hroot, hlink, rfl⟩ |
      ⟨hroot, expected, hlink, hwrong, rfl⟩
    · exact .rootParent target hlast hwrong hconcerns
    · exact .orphanParent dir target hlast hroot hlink hconcerns
    · exact .wrongParent dir target expected hlast hroot hlink hwrong hconcerns

/-- The rows give rise to a line about the inode. -/
theorem Summary.Mentions.concerns (hlow : 1 ≤ i) (hhigh : i ≤ summary.superblock.inoCnt)
    (halloc : ¬ summary.Allocated i) (hmentions : summary.Mentions i) :
    ∃ m ∈ summary.messages, m.Concerns i := by
  cases hmentions with
  | invalidBlock p hp hinvalid howner =>
      exact ⟨_, mem_messages_of_pointer hp
        (Pointer.mem_messages_iff.2 (.inl ⟨hinvalid, rfl⟩)), howner⟩
  | reservedBlock p hp hreserved howner =>
      exact ⟨_, mem_messages_of_pointer hp
        (Pointer.mem_messages_iff.2 (.inr ⟨hreserved, rfl⟩)), howner⟩
  | invalidInode d hd hinvalid hdir =>
      exact ⟨_, mem_messages_of_dirent hd
        (Dirent.mem_messages_iff.2 (.inl ⟨hinvalid, rfl⟩)), .inl hdir⟩
  | dotLink d hd hvalid hdot hwrong hends =>
      exact ⟨_, mem_messages_of_dirent hd
        (Dirent.mem_messages_iff.2 (.inr ⟨hvalid, hdot, hwrong, rfl⟩)), hends⟩
  | unlinked hfree hlinks hreserved =>
      exact ⟨_, mem_messages_of_inode hlow hhigh
        (mem_inodeMessages_iff.2 (.inl ⟨hfree, halloc, hlinks, hreserved, rfl⟩)), rfl⟩
  | rootParent target hparent hwrong hends =>
      exact ⟨_, mem_messages_of_parent hparent
        (mem_parentMessages_iff.2 (.inl ⟨rfl, hwrong, rfl⟩)), hends⟩
  | orphanParent dir target hparent hroot hlink hends =>
      exact ⟨_, mem_messages_of_parent hparent
        (mem_parentMessages_iff.2 (.inr (.inl ⟨hroot, hlink, rfl⟩))), hends⟩
  | wrongParent dir target expected hparent hroot hlink hwrong hends =>
      exact ⟨_, mem_messages_of_parent hparent
        (mem_parentMessages_iff.2 (.inr (.inr ⟨hroot, expected, hlink, hwrong, rfl⟩))), hends⟩

/-- What the printed lines say about an inode without an `INODE` row. -/
theorem concerns_iff (hlow : 1 ≤ i) (hhigh : i ≤ summary.superblock.inoCnt)
    (halloc : ¬ summary.Allocated i) :
    (∃ m ∈ summary.messages, m.Concerns i) ↔ summary.Mentions i :=
  ⟨fun ⟨_, hm, hconcerns⟩ => mentions_of_concerns hlow hhigh halloc hm hconcerns,
    fun hmentions => hmentions.concerns hlow hhigh halloc⟩

/-- An unallocated inode named by an entry is noticed exactly when no broken message is due and
the rows give rise to some line about it. -/
theorem noticed_iff (h : parse lines = some summary) (hd : summary.Dangling i) :
    (lab3b lines).Noticed i ↔ summary.Printable ∧ summary.Mentions i := by
  obtain ⟨⟨hlow, hhigh⟩, halloc, -⟩ := hd
  rw [← concerns_iff hlow hhigh halloc]
  constructor
  · intro ⟨hconcerns, hstatus⟩
    have hprint : summary.Printable := by
      by_contra hnot
      rw [(lab3b_raised h hnot).2] at hstatus
      cases hstatus
    rw [lab3b_eq h hprint] at hconcerns
    exact ⟨hprint, hconcerns⟩
  · intro ⟨hprint, m, hm, hconcerns⟩
    rw [lab3b_eq h hprint]
    exact ⟨⟨m, hm, hconcerns⟩, if_neg (List.ne_nil_of_mem hm)⟩

/-- The sample with an entry `foo` of the root directory that names inode 11. -/
def sampleFoo (more : List Row) : Summary :=
  sample (.dirent ⟨2, 11, "'foo'\n".toList⟩ :: more)

/-- Its summary file. -/
def sampleFooLines (more : List Text) : List Text :=
  sampleLines (csvLine ["DIRENT", "2", "24", "11", "1000", "3", "'foo'"] :: more)

/-- The rows of this sample. -/
theorem parse_sampleFooLines (more : List Text) {rows : List Row}
    (h : more.mapM parseRow = some rows) :
    parse (sampleFooLines more) = some (sampleFoo rows) := by
  have hfoo : parseRow (csvLine ["DIRENT", "2", "24", "11", "1000", "3", "'foo'"]) =
      some (.dirent ⟨2, 11, "'foo'\n".toList⟩) := by decide +kernel
  refine parse_sampleLines _ ?_
  simp only [List.mapM_cons, hfoo, h]
  rfl

/-- Without an `INODE` row for inode 11 the entry dangles. -/
theorem sampleFoo_dangling (more : List Row) (h : more.filterMap Row.linkCount? = []) :
    (sampleFoo more).Dangling 11 := by
  refine ⟨⟨by omega, le_rfl⟩, ?_, ⟨2, 11, "'foo'\n".toList⟩, List.mem_cons_self, by decide, rfl⟩
  intro ⟨count, hmem⟩
  rw [linkCounts, sampleFoo, sample, List.cons_append, List.filterMap_cons,
    List.filterMap_append, h] at hmem
  have hcounts : (11, count) ∈ [((2 : Int), (2 : Int))] := hmem
  simp at hcounts

/-- An indirect block of inode 11 lies behind the file system: the line about this block is about
the inode. -/
theorem sample_noticed : (sampleFoo [.indirect 11 .single 99]).Mentions 11 := by
  have hprinted : lab3b (sampleFooLines [csvLine ["INDIRECT", "11", "1", "12", "8", "99"]]) =
      ⟨[.invalidBlock "INDIRECT".toList 99 11 12, .unreferencedBlock 10], none, 2⟩ := by
    decide +kernel
  refine ((noticed_iff (parse_sampleFooLines [csvLine ["INDIRECT", "11", "1", "12", "8", "99"]]
    (by decide +kernel)) (sampleFoo_dangling _ rfl)).1 ?_).2
  rw [hprinted]
  exact ⟨⟨_, List.mem_cons_self, rfl⟩, rfl⟩

/-- Without more rows about inode 11 nothing is printed; with inode 11 on the free list the run
ends with an exception. -/
theorem sample_not_noticed :
    (∃ lines summary, parse lines = some summary ∧ summary.Dangling 11 ∧
      lab3b lines = ⟨[], none, 0⟩ ∧ ¬ (lab3b lines).Noticed 11) ∧
    ∃ lines summary, parse lines = some summary ∧ summary.Dangling 11 ∧
      lab3b lines = ⟨[], some (.nameError "x"), 1⟩ ∧ ¬ (lab3b lines).Noticed 11 := by
  have hsilent : lab3b (sampleFooLines [csvLine ["BFREE", "10"]]) = ⟨[], none, 0⟩ := by
    decide +kernel
  have hraised : lab3b (sampleFooLines [csvLine ["BFREE", "10"], csvLine ["IFREE", "11"]]) =
      ⟨[], some (.nameError "x"), 1⟩ := by decide +kernel
  have hnot : ∀ outcome : Outcome, outcome.status ≠ 2 → ¬ outcome.Noticed 11 :=
    fun outcome hstatus hnoticed => hstatus hnoticed.2
  refine ⟨⟨_, sampleFoo [.bfree 10], parse_sampleFooLines _ (by decide +kernel),
    sampleFoo_dangling _ rfl, hsilent, hnot _ ?_⟩, ⟨_, sampleFoo [.bfree 10, .ifree 11],
    parse_sampleFooLines _ (by decide +kernel), sampleFoo_dangling _ rfl, hraised, hnot _ ?_⟩⟩
  · rw [hsilent]
    decide
  · rw [hraised]
    decide

end Coursework.FileSystem
