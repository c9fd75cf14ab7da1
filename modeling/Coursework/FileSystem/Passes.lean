import Coursework.FileSystem.Reading
import Mathlib.Tactic.Push

/-!
# The passes over the tables

The three messages that refer to a name that was never assigned end the run; all other
messages are printed. `audit_eq` gives the printed lines of a summary on which no broken
message is due, and `audit_error` the exception on every other summary.
Vocabulary and scope: `Coursework.FileSystem.Reading`.
-/

namespace Coursework.FileSystem

open Python

/-! ## Loops -/

/-- A loop whose body prints lines. -/
theorem foldl_print {α : Type} {f : Report → α → Report} (messages : α → List Message)
    (hf : ∀ report item, f report item = report.printAll (messages item)) (items : List α)
    (report : Report) : items.foldl f report = report.printAll (items.flatMap messages) := by
  induction items generalizing report with
  | nil => rfl
  | cons item items ih =>
      rw [List.foldl_cons, hf, ih, List.flatMap_cons, Report.printAll_append]

/-- A loop whose body does nothing. -/
theorem foldlM_pure {α : Type} {f : Report → α → Result Report} {items : List α}
    (hf : ∀ report, ∀ item ∈ items, f report item = .ok report) (report : Report) :
    items.foldlM f report = .ok report := by
  induction items generalizing report with
  | nil => rfl
  | cons item items ih =>
      rw [List.foldlM_cons, hf report item List.mem_cons_self]
      exact ih (fun report item hitem => hf report item (List.mem_cons_of_mem _ hitem)) report

/-- A loop whose body raises an exception on some item and else does nothing. -/
theorem foldlM_raise {α : Type} {f : Report → α → Result Report} {items : List α}
    {error : PyError} (hf : ∀ report item, f report item = .ok report ∨
      f report item = raise report error)
    (hraise : ∃ item ∈ items, ∀ report, f report item = raise report error) (report : Report) :
    items.foldlM f report = raise report error := by
  induction items generalizing report with
  | nil => simp at hraise
  | cons item items ih =>
      rw [List.foldlM_cons]
      rcases hf report item with hok | herror
      · rw [hok]
        refine ih ?_ report
        obtain ⟨bad, hbad, hraises⟩ := hraise
        rcases List.mem_cons.1 hbad with rfl | hbad
        · simp [hraises report, raise] at hok
        · exact ⟨bad, hbad, hraises⟩
      · rw [herror]
        rfl

/-- The numbers of `range(1, stop)`. -/
theorem mem_rangeFromOne {stop n : Int} : n ∈ rangeFromOne stop ↔ 1 ≤ n ∧ n < stop := by
  simp only [rangeFromOne, List.mem_map, List.mem_range]
  refine ⟨fun ⟨k, hk, hn⟩ => by omega, fun ⟨hlow, hhigh⟩ => ⟨(n - 1).toNat, ?_, ?_⟩⟩ <;> omega

/-! ## The lines printed by the passes -/

/-- The line about a block. -/
def blockMessages (s : State) (blk : Int) : List Message :=
  if blk ∈ s.bfree then
    if s.blockDict.Contains blk then [.allocatedBlock blk] else []
  else if ¬ s.blockDict.Contains blk ∧ blk ∉ reservedBlocks then [.unreferencedBlock blk]
  else []

/-- The line about an inode. -/
def inodeMessages (s : State) (ino : Int) : List Message :=
  if ino ∉ s.ifree ∧ ¬ s.inodeDictLnkCnt.Contains ino ∧ ¬ s.inodeDictLr.Contains ino ∧
      ino ∉ reservedInodes then [.unallocatedInode ino]
  else if s.inodeDictLnkCnt.Contains ino ∧ ino ∈ s.ifree then [.allocatedInode ino]
  else []

/-- The line about the `..` entry of a directory. -/
def parentMessages (s : State) (entry : Int × Int) : List Message :=
  if entry.1 = 2 ∧ entry.2 = 2 then []
  else if entry.1 = 2 then [.rootParent entry.2]
  else match s.inodeDictLr.get? entry.1 with
    | none => [.orphanParent entry.2 entry.1]
    | some expected => if entry.2 ≠ expected then [.wrongParent entry.1 expected] else []

variable {s : State} {superblock : Superblk} {report : Report}

/-- The lines of the block pass. -/
theorem blockPass_eq (hsuper : s.superblock = some superblock) :
    blockPass s report =
      .ok (report.printAll ((rangeFromOne (superblock.blkCnt + 1)).flatMap (blockMessages s))) := by
  simp only [blockPass, hsuper, nameValue, bind, Except.bind, pure, Except.pure]
  rw [foldl_print (blockMessages s)]
  intro report blk
  simp only [blockMessages]
  split <;> split <;> rfl

/-- The lines of the inode pass. -/
theorem inodePass_eq (hsuper : s.superblock = some superblock) :
    inodePass s report =
      .ok (report.printAll ((rangeFromOne (superblock.inoCnt + 1)).flatMap (inodeMessages s))) := by
  simp only [inodePass, hsuper, nameValue, bind, Except.bind, pure, Except.pure]
  rw [foldl_print (inodeMessages s)]
  intro report ino
  simp only [inodeMessages]
  split
  · rfl
  · split <;> rfl

/-- The lines of the directory pass. -/
theorem directoryPass_eq :
    directoryPass s report =
      report.printAll (s.inodeDictParents.entries.flatMap (parentMessages s)) := by
  refine foldl_print (parentMessages s) ?_ _ _
  intro report ⟨parent, target⟩
  simp only [parentMessages]
  split
  · rfl
  · split
    · rfl
    · cases s.inodeDictLr.get? parent with
      | none => rfl
      | some expected => by_cases h : target = expected <;> simp [h, Report.printAll]

/-! ## The broken messages -/

/-- None of the messages that refer to an unassigned name is due. -/
structure Summary.Printable (summary : Summary) : Prop where
  links_counted : ∀ ino count, lastValue (linkCounts summary.rows) ino = some count →
    count = linkNumber summary.rows ino
  no_free_reference : ∀ d ∈ dirents summary.rows, d.IsLink summary.superblock →
    .ifree d.inodeNum ∉ summary.rows
  no_duplicate : ∀ block, (refsTo summary.rows block).length ≤ 1

variable {summary : Summary}

/-- The pass over the link counts prints nothing when all counts are right. -/
theorem linkPass_ok (hreads : Reads summary.superblock summary.rows s)
    (h : ∀ ino count, lastValue (linkCounts summary.rows) ino = some count →
      count = linkNumber summary.rows ino) : linkPass s report = .ok report := by
  refine foldlM_pure ?_ report
  intro report ⟨ino, count⟩ hentry
  have hcount := h ino count (by rw [← hreads.inodeDictLnkCnt, Dict.mem_entries_iff.1 hentry])
  simp only [hreads.inodeDictRefLnkCnt, ← hcount, ne_eq, not_true_eq_false, if_false]
  rfl

/-- The pass over the link counts fails on a wrong count. -/
theorem linkPass_error (hreads : Reads summary.superblock summary.rows s)
    (h : ∃ ino count, lastValue (linkCounts summary.rows) ino = some count ∧
      count ≠ linkNumber summary.rows ino) :
    linkPass s report = raise report (.nameError "linkcount") := by
  obtain ⟨ino, count, hlast, hcount⟩ := h
  refine foldlM_raise ?_ ⟨(ino, count), ?_, fun report => ?_⟩ report
  · intro report ⟨_, _⟩
    dsimp only
    split
    · exact .inr rfl
    · exact .inl rfl
  · rw [Dict.mem_entries_iff, hreads.inodeDictLnkCnt, hlast]
  · simp only [hreads.inodeDictRefLnkCnt, ne_eq, hcount, not_false_eq_true, if_true]

/-- An inode is linked by some entry exactly when it is in `inode_dict_lr`. -/
theorem Reads.contains_link_iff (hreads : Reads summary.superblock summary.rows s) {ino : Int} :
    s.inodeDictLr.Contains ino ↔
      ∃ d ∈ dirents summary.rows, d.IsLink summary.superblock ∧ d.inodeNum = ino := by
  rw [Dict.Contains, hreads.inodeDictLr, lastValue_isSome_iff]
  simp only [links, List.mem_map, List.mem_filter, decide_eq_true_eq, Prod.mk.injEq]
  constructor
  · intro h
    obtain ⟨_, d, ⟨hd, hlink⟩, hino, -⟩ := h
    exact ⟨d, hd, hlink, hino⟩
  · intro h
    obtain ⟨d, hd, hlink, hino⟩ := h
    exact ⟨_, d, ⟨hd, hlink⟩, hino, rfl⟩

/-- The pass over the references prints nothing when no linked inode is free. -/
theorem referencePass_ok (hreads : Reads summary.superblock summary.rows s)
    (h : ∀ d ∈ dirents summary.rows, d.IsLink summary.superblock →
      .ifree d.inodeNum ∉ summary.rows) : referencePass s report = .ok report := by
  refine foldlM_pure ?_ report
  intro report ⟨ino, name⟩ _
  have hnot : ¬ (ino ∈ s.ifree ∧ s.inodeDictLr.Contains ino) := by
    intro ⟨hfree, hlink⟩
    obtain ⟨d, hd, htaken, rfl⟩ := hreads.contains_link_iff.1 hlink
    exact h d hd htaken ((hreads.ifree _).1 hfree)
  simp only [hnot, if_false]
  rfl

/-- The pass over the references fails on a linked free inode. -/
theorem referencePass_error (hreads : Reads summary.superblock summary.rows s)
    (h : ∃ d ∈ dirents summary.rows, d.IsLink summary.superblock ∧
      .ifree d.inodeNum ∈ summary.rows) :
    referencePass s report = raise report (.nameError "x") := by
  obtain ⟨d, hd, hlink, hfree⟩ := h
  obtain ⟨name, hname⟩ := Option.isSome_iff_exists.1 ((hreads.refInode d.inodeNum).2 ⟨d, hd, rfl⟩)
  refine foldlM_raise ?_ ⟨(d.inodeNum, name), ?_, fun report => ?_⟩ report
  · intro report ⟨_, _⟩
    dsimp only
    split
    · exact .inr rfl
    · exact .inl rfl
  · exact Dict.mem_entries_iff.2 hname
  · have hcontains := hreads.contains_link_iff.2 ⟨d, hd, hlink, rfl⟩
    simp only [(hreads.ifree _).2 hfree, hcontains, and_self, if_true]

/-- The pass over the duplicates prints nothing when no block has two references. -/
theorem duplicatePass_ok (hreads : Reads summary.superblock summary.rows s)
    (h : ∀ block, (refsTo summary.rows block).length ≤ 1) :
    duplicatePass s report = .ok report := by
  refine foldlM_pure ?_ report
  intro report ⟨block, refs⟩ hentry
  have hrefs : refs? (refsTo summary.rows block) = some refs := by
    rw [← hreads.blockDict, Dict.mem_entries_iff.1 hentry]
  have heq : refsTo summary.rows block = refs := by
    unfold refs? at hrefs
    split at hrefs
    · cases hrefs
    · exact Option.some.inj hrefs
  have hlength := h block
  rw [heq] at hlength
  simp only [show ¬ refs.length > 1 by omega, if_false]
  rfl

/-- The pass over the duplicates fails on a block with two references. -/
theorem duplicatePass_error (hreads : Reads summary.superblock summary.rows s)
    (h : ∃ block, 1 < (refsTo summary.rows block).length) :
    duplicatePass s report = raise report (.nameError "block") := by
  obtain ⟨block, hlength⟩ := h
  have hraise : ∀ report, ∀ refs : List Ref, 1 < refs.length →
      refs.foldlM (fun report _ => raise report (.nameError "block")) report =
        (raise report (.nameError "block") : Result Report) := by
    intro report refs hrefs
    cases refs with
    | nil => simp at hrefs
    | cons ref refs => rfl
  refine foldlM_raise ?_ ⟨(block, refsTo summary.rows block), ?_, fun report => ?_⟩ report
  · intro report ⟨_, _⟩
    dsimp only
    split
    · next hmany => exact .inr (hraise report _ hmany)
    · exact .inl rfl
  · rw [Dict.mem_entries_iff, hreads.blockDict, refs?, if_neg]
    intro hempty
    simp [hempty] at hlength
  · simp only [gt_iff_lt, hlength, if_true]
    exact hraise report _ hlength

/-! ## The audit of a summary -/

/-- The lines printed for a summary on which no broken message is due. -/
def Summary.messages (summary : Summary) : List Message :=
  summary.rows.flatMap (Row.messages summary.superblock) ++
    (rangeFromOne (summary.superblock.blkCnt + 1)).flatMap (blockMessages summary.read) ++
    (rangeFromOne (summary.superblock.inoCnt + 1)).flatMap (inodeMessages summary.read) ++
    summary.read.inodeDictParents.entries.flatMap (parentMessages summary.read)

/-- Without broken messages the audit runs to its end. -/
theorem audit_eq {lines : List Text} (h : parse lines = some summary) (hprint : summary.Printable) :
    audit lines = .ok (Report.printAll ⟨[], true⟩ summary.messages) := by
  have hreads := reads_summary summary
  simp only [audit, read_eq h, linkPass_ok hreads hprint.links_counted, blockPass_eq hreads.super,
    referencePass_ok hreads hprint.no_free_reference, inodePass_eq hreads.super,
    duplicatePass_ok hreads hprint.no_duplicate, directoryPass_eq, bind, Except.bind, pure,
    Except.pure, hreads.report, Summary.messages, Report.printAll_append]

/-- A broken message that is due ends the audit. -/
theorem audit_error {lines : List Text} (h : parse lines = some summary)
    (hprint : ¬ summary.Printable) : ∃ failure, audit lines = .error failure := by
  have hreads := reads_summary summary
  by_cases hlinks : ∀ ino count, lastValue (linkCounts summary.rows) ino = some count →
      count = linkNumber summary.rows ino
  · by_cases hfree : ∀ d ∈ dirents summary.rows, d.IsLink summary.superblock →
        .ifree d.inodeNum ∉ summary.rows
    · have hduplicate : ∃ block, 1 < (refsTo summary.rows block).length := by
        by_contra hnone
        exact hprint ⟨hlinks, hfree, fun block => not_lt.1 fun hlt => hnone ⟨block, hlt⟩⟩
      simp only [audit, read_eq h, linkPass_ok hreads hlinks, blockPass_eq hreads.super,
        referencePass_ok hreads hfree, inodePass_eq hreads.super,
        duplicatePass_error hreads hduplicate, bind, Except.bind, raise]
      exact ⟨_, rfl⟩
    · push Not at hfree
      simp only [audit, read_eq h, linkPass_ok hreads hlinks, blockPass_eq hreads.super,
        referencePass_error hreads hfree, bind, Except.bind, raise]
      exact ⟨_, rfl⟩
  · push Not at hlinks
    simp only [audit, read_eq h, linkPass_error hreads hlinks, bind, Except.bind, raise]
    exact ⟨_, rfl⟩

end Coursework.FileSystem
