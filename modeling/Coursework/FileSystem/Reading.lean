import Coursework.FileSystem.Rows

/-!
# What the reader has collected

The tables of the auditor as functions of the rows: the free sets, the references to each
block, the last link count and the last parent of each inode, the number of entries that name
it. `Reads` relates a state to the rows read; every row keeps it (`Reads.step`), so it holds
after all rows (`reads_summary`).
Vocabulary and scope: `Coursework.FileSystem.Rows`.
-/

namespace Coursework.FileSystem

open Python

/-! ## The data of the rows -/

/-- The link count of an `INODE` row. -/
def Row.linkCount? : Row → Option (Int × Int)
  | .inode row => some (row.inoNum, row.linkCnt)
  | _ => none

/-- The block of a `BFREE` row. -/
def Row.bfree? : Row → Option Int
  | .bfree block => some block
  | _ => none

/-- The entry of a `DIRENT` row. -/
def Row.dirent? : Row → Option Dirent
  | .dirent d => some d
  | _ => none

/-- The link counts of the `INODE` rows. -/
def linkCounts (rows : List Row) : List (Int × Int) :=
  rows.filterMap Row.linkCount?

/-- The blocks listed as free. -/
def freeBlocks (rows : List Row) : List Int :=
  rows.filterMap Row.bfree?

/-- The directory entries. -/
def dirents (rows : List Row) : List Dirent :=
  rows.filterMap Row.dirent?

/-- The block pointers. -/
def pointers (rows : List Row) : List Pointer :=
  rows.flatMap Row.pointers

/-- The references to a block that are entered in `block_dict`. -/
def refsTo (rows : List Row) (blockNum : Int) : List Ref :=
  ((pointers rows).filter fun p => ¬ p.IsReserved ∧ p.blockNum = blockNum).map Pointer.ref

/-- The entry is entered in `inode_dict_parents`. -/
def Dirent.IsParent (superblock : Superblk) (d : Dirent) : Prop :=
  d.IsValid superblock ∧ ¬ IsDot d.dirName ∧ IsDotDot d.dirName

/-- The entry is entered in `inode_dict_lr`. -/
def Dirent.IsLink (superblock : Superblk) (d : Dirent) : Prop :=
  d.IsValid superblock ∧ ¬ IsDot d.dirName ∧ ¬ IsDotDot d.dirName

instance (superblock : Superblk) (d : Dirent) : Decidable (d.IsParent superblock) :=
  inferInstanceAs (Decidable (_ ∧ _ ∧ _))

instance (superblock : Superblk) (d : Dirent) : Decidable (d.IsLink superblock) :=
  inferInstanceAs (Decidable (_ ∧ _ ∧ _))

/-- The directories and the targets of their `..` entries. -/
def parents (superblock : Superblk) (rows : List Row) : List (Int × Int) :=
  ((dirents rows).filter fun d => d.IsParent superblock).map fun d => (d.parentInode, d.inodeNum)

/-- The inodes and the directories that link them. -/
def links (superblock : Superblk) (rows : List Row) : List (Int × Int) :=
  ((dirents rows).filter fun d => d.IsLink superblock).map fun d => (d.inodeNum, d.parentInode)

/-- The number of entries that name an inode. -/
def linkNumber (rows : List Row) (inodeNum : Int) : Nat :=
  (dirents rows).countP fun d => d.inodeNum = inodeNum

/-- The value of the last pair with a given key. -/
def lastValue (pairs : List (Int × Int)) (key : Int) : Option Int :=
  pairs.reverse.lookup key

/-- One more pair decides the value of its key. -/
theorem lastValue_concat (pairs : List (Int × Int)) (pair : Int × Int) (key : Int) :
    lastValue (pairs ++ [pair]) key =
      if key = pair.1 then some pair.2 else lastValue pairs key := by
  rw [lastValue, List.reverse_concat, List.lookup_cons]
  by_cases heq : key = pair.1
  · simp [heq]
  · simp [heq, beq_false_of_ne heq, lastValue]

/-- A last value is the value of some pair. -/
theorem mem_of_lastValue {pairs : List (Int × Int)} {key value : Int}
    (h : lastValue pairs key = some value) : (key, value) ∈ pairs :=
  List.mem_reverse.1 (Dict.mem_of_lookup h)

/-- A key has a last value exactly when some pair has it. -/
theorem lastValue_isSome_iff {pairs : List (Int × Int)} {key : Int} :
    (lastValue pairs key).isSome ↔ ∃ value, (key, value) ∈ pairs := by
  rw [Option.isSome_iff_ne_none, ne_eq, lastValue, Dict.lookup_eq_none_iff, not_not]
  simp

/-- A nonempty list of references. -/
def refs? (refs : List Ref) : Option (List Ref) :=
  if refs = [] then none else some refs

/-! ## The state after some rows -/

/-- The state after reading these rows. -/
structure Reads (superblock : Superblk) (rows : List Row) (s : State) : Prop where
  super : s.superblock = some superblock
  report : s.report = Report.printAll ⟨[], true⟩ (rows.flatMap (Row.messages superblock))
  bfree : ∀ block, block ∈ s.bfree ↔ .bfree block ∈ rows
  ifree : ∀ ino, ino ∈ s.ifree ↔ .ifree ino ∈ rows
  blockDict : ∀ block, s.blockDict.get? block = refs? (refsTo rows block)
  inodeDictLnkCnt : ∀ ino, s.inodeDictLnkCnt.get? ino = lastValue (linkCounts rows) ino
  inodeDictRefLnkCnt : ∀ ino, (s.inodeDictRefLnkCnt.get? ino).getD 0 = linkNumber rows ino
  inodeDictLr : ∀ ino, s.inodeDictLr.get? ino = lastValue (links superblock rows) ino
  inodeDictParents : ∀ ino, s.inodeDictParents.get? ino = lastValue (parents superblock rows) ino
  refInode : ∀ ino, s.refInode.Contains ino ↔ ∃ d ∈ dirents rows, d.inodeNum = ino

variable {superblock : Superblk} {rows : List Row} {s : State}

/-- The references to a block after one more. -/
theorem get?_addRef (blockDict : Dict Int (List Ref)) (blockNum block : Int) (ref : Ref) :
    (addRef blockDict blockNum ref).get? block =
      if block = blockNum then some ((blockDict.get? blockNum).getD [] ++ [ref])
      else blockDict.get? block := by
  unfold addRef
  cases h : blockDict.get? blockNum with
  | none => simp [Dict.get?_set]
  | some refs => simp [Dict.get?_set]

/-- The counted links after one more. -/
theorem get?_countLink (counts : Dict Int Int) (inodeNum ino : Int) :
    ((countLink counts inodeNum).get? ino).getD 0 =
      (counts.get? ino).getD 0 + if inodeNum = ino then 1 else 0 := by
  unfold countLink
  cases h : counts.get? inodeNum with
  | none =>
      by_cases heq : ino = inodeNum
      · simp [Dict.get?_set, heq, h]
      · simp [Dict.get?_set, heq, Ne.symm heq]
  | some count =>
      by_cases heq : ino = inodeNum
      · simp [Dict.get?_set, heq, h]
      · simp [Dict.get?_set, heq, Ne.symm heq]

/-- What the checks of some pointers change. -/
theorem foldl_check (superblock : Superblk) (pointers : List Pointer) (s : State) :
    ∃ blockDict strlvl offset, pointers.foldl (State.check superblock) s =
        { s with
          report := s.report.printAll (pointers.flatMap (Pointer.messages superblock))
          blockDict, strlvl, offset } ∧
      ∀ block refs, s.blockDict.get? block = refs? refs →
        blockDict.get? block = refs? (refs ++
          (pointers.filter fun p => ¬ p.IsReserved ∧ p.blockNum = block).map Pointer.ref) := by
  induction pointers generalizing s with
  | nil => exact ⟨s.blockDict, s.strlvl, s.offset, rfl, fun block refs h => by simpa using h⟩
  | cons p pointers ih =>
      obtain ⟨blockDict, strlvl, offset, heq, hrefs⟩ := ih (s.check superblock p)
      refine ⟨blockDict, strlvl, offset, ?_, fun block refs h => ?_⟩
      · rw [List.foldl_cons, heq, List.flatMap_cons, Report.printAll_append]
        rfl
      · by_cases hres : p.IsReserved
        · have hkeep := hrefs block refs (by simpa [State.check, hres] using h)
          simpa [hres] using hkeep
        · by_cases hblock : p.blockNum = block
          · have hnew : (s.check superblock p).blockDict.get? block = refs? (refs ++ [p.ref]) := by
              simp only [State.check, hres, if_false, get?_addRef, hblock, if_true, h, refs?]
              by_cases hempty : refs = [] <;> simp [hempty]
            simpa [hres, hblock] using hrefs block _ hnew
          · have hkeep := hrefs block refs
              (by simpa [State.check, hres, get?_addRef, Ne.symm hblock] using h)
            simpa [hres, hblock] using hkeep

/-- The data of one more row. -/
theorem rows_concat (rows : List Row) (row : Row) :
    linkCounts (rows ++ [row]) = linkCounts rows ++ row.linkCount?.toList ∧
      dirents (rows ++ [row]) = dirents rows ++ row.dirent?.toList ∧
      pointers (rows ++ [row]) = pointers rows ++ row.pointers := by
  refine ⟨?_, ?_, ?_⟩
  · cases h : row.linkCount? <;> simp [linkCounts, h]
  · cases h : row.dirent? <;> simp [dirents, h]
  · simp [pointers]

/-- Reading some pointers. -/
theorem Reads.pointers (h : Reads superblock rows s) (row : Row)
    (hdirent : row.dirent? = none) (hfree : ∀ n, row ≠ .bfree n ∧ row ≠ .ifree n)
    (hmessages : row.messages superblock = row.pointers.flatMap (Pointer.messages superblock))
    (counts : Dict Int Int)
    (hcounts : ∀ ino, counts.get? ino = lastValue (linkCounts (rows ++ [row])) ino) :
    Reads superblock (rows ++ [row]) (row.pointers.foldl (State.check superblock)
      { s with inodeDictLnkCnt := counts }) := by
  obtain ⟨-, hdirents, hpointers⟩ := rows_concat rows row
  rw [hdirent, Option.toList_none, List.append_nil] at hdirents
  obtain ⟨blockDict, strlvl, offset, heq, hrefs⟩ :=
    foldl_check superblock row.pointers { s with inodeDictLnkCnt := counts }
  rw [heq]
  refine ⟨h.super, ?_, fun block => ?_, fun ino => ?_, fun block => ?_, hcounts, fun ino => ?_,
    fun ino => ?_, fun ino => ?_, fun ino => ?_⟩
  · rw [List.flatMap_append, Report.printAll_append, ← h.report, List.flatMap_singleton, hmessages]
  · simp [h.bfree block, (hfree block).1.symm]
  · simp [h.ifree ino, (hfree ino).2.symm]
  · rw [hrefs block _ (h.blockDict block), refsTo, refsTo, hpointers, List.filter_append,
      List.map_append]
  · rw [h.inodeDictRefLnkCnt, linkNumber, linkNumber, hdirents]
  · rw [h.inodeDictLr, links, links, hdirents]
  · rw [h.inodeDictParents, parents, parents, hdirents]
  · rw [h.refInode, hdirents]

/-- The links after one more entry. -/
theorem links_concat (superblock : Superblk) (rows : List Row) (d : Dirent) :
    links superblock (rows ++ [.dirent d]) = links superblock rows ++
        (if d.IsLink superblock then [(d.inodeNum, d.parentInode)] else []) ∧
      parents superblock (rows ++ [.dirent d]) = parents superblock rows ++
        (if d.IsParent superblock then [(d.parentInode, d.inodeNum)] else []) := by
  obtain ⟨-, hdirents, -⟩ := rows_concat rows (.dirent d)
  refine ⟨?_, ?_⟩
  · rw [links, links, hdirents]
    by_cases h : d.IsLink superblock <;> simp [Row.dirent?, h]
  · rw [parents, parents, hdirents]
    by_cases h : d.IsParent superblock <;> simp [Row.dirent?, h]

/-- Reading a directory entry. -/
theorem Reads.dirent (h : Reads superblock rows s) (d : Dirent) :
    Reads superblock (rows ++ [.dirent d]) (d.apply superblock s) := by
  obtain ⟨hcounts, hdirents, hpointers⟩ := rows_concat rows (.dirent d)
  obtain ⟨hlinks, hparents⟩ := links_concat superblock rows d
  simp only [Row.linkCount?, Row.dirent?, Row.pointers, Option.toList_none, Option.toList_some,
    List.append_nil] at hcounts hdirents hpointers
  refine ⟨h.super, ?_, fun block => ?_, fun ino => ?_, fun block => ?_, fun ino => ?_,
    fun ino => ?_, fun ino => ?_, fun ino => ?_, fun ino => ?_⟩
  · rw [List.flatMap_append, Report.printAll_append, ← h.report, List.flatMap_singleton]
    rfl
  · simp [Dirent.apply, h.bfree block]
  · simp [Dirent.apply, h.ifree ino]
  · rw [refsTo, hpointers]
    exact h.blockDict block
  · rw [hcounts]
    exact h.inodeDictLnkCnt ino
  -- the entry is counted, valid or not
  · have hcount := get?_countLink s.inodeDictRefLnkCnt d.inodeNum ino
    rw [h.inodeDictRefLnkCnt] at hcount
    rw [linkNumber, hdirents, List.countP_append]
    simp only [Dirent.apply, hcount, linkNumber]
    by_cases heq : d.inodeNum = ino <;> simp [heq]
  -- a later entry replaces an earlier one
  · rw [hlinks]
    by_cases hlink : d.IsLink superblock
    · have hlink' := hlink
      unfold Dirent.IsLink at hlink'
      simp [Dirent.apply, hlink', hlink, Dict.get?_set, lastValue_concat, h.inodeDictLr]
    · have hlink' := hlink
      unfold Dirent.IsLink at hlink'
      rw [if_neg hlink, List.append_nil]
      simp only [Dirent.apply, if_neg hlink']
      exact h.inodeDictLr ino
  · rw [hparents]
    by_cases hparent : d.IsParent superblock
    · have hparent' := hparent
      unfold Dirent.IsParent at hparent'
      simp [Dirent.apply, hparent', hparent, Dict.get?_set, lastValue_concat, h.inodeDictParents]
    · have hparent' := hparent
      unfold Dirent.IsParent at hparent'
      rw [if_neg hparent, List.append_nil]
      simp only [Dirent.apply, if_neg hparent']
      exact h.inodeDictParents ino
  · have hold := h.refInode ino
    simp only [Dict.Contains] at hold ⊢
    rw [hdirents]
    simp only [Dirent.apply, Dict.get?_set]
    by_cases heq : ino = d.inodeNum
    · simp [heq]
    · simp [heq, hold, Ne.symm heq]

/-- Reading a row that only the free sets see, or that is ignored. -/
theorem Reads.free (h : Reads superblock rows s) {row : Row} (hcount : row.linkCount? = none)
    (hdirent : row.dirent? = none) (hpointers : row.pointers = [])
    (hmessages : row.messages superblock = []) {bfree ifree : Finset Int}
    (hbfree : ∀ block, block ∈ bfree ↔ .bfree block ∈ rows ++ [row])
    (hifree : ∀ ino, ino ∈ ifree ↔ .ifree ino ∈ rows ++ [row]) :
    Reads superblock (rows ++ [row]) { s with bfree, ifree } := by
  obtain ⟨hcounts', hdirents', hpointers'⟩ := rows_concat rows row
  rw [hcount, Option.toList_none, List.append_nil] at hcounts'
  rw [hdirent, Option.toList_none, List.append_nil] at hdirents'
  rw [hpointers, List.append_nil] at hpointers'
  refine ⟨h.super, ?_, hbfree, hifree, fun block => ?_, fun ino => ?_, fun ino => ?_,
    fun ino => ?_, fun ino => ?_, fun ino => ?_⟩
  · rw [List.flatMap_append, List.flatMap_singleton, hmessages, List.append_nil]
    exact h.report
  · rw [refsTo, hpointers']
    exact h.blockDict block
  · rw [hcounts']
    exact h.inodeDictLnkCnt ino
  · rw [linkNumber, hdirents']
    exact h.inodeDictRefLnkCnt ino
  · rw [links, hdirents']
    exact h.inodeDictLr ino
  · rw [parents, hdirents']
    exact h.inodeDictParents ino
  · rw [hdirents']
    exact h.refInode ino

/-- Reading one more row. -/
theorem Reads.step (h : Reads superblock rows s) (row : Row) :
    Reads superblock (rows ++ [row]) (row.apply superblock s) := by
  cases row with
  | bfree block =>
      refine h.free rfl rfl rfl rfl (fun other => ?_) fun ino => ?_
      · simp [h.bfree, or_comm]
      · simp [h.ifree]
  | ifree ino =>
      refine h.free rfl rfl rfl rfl (fun block => ?_) fun other => ?_
      · simp [h.bfree]
      · simp [h.ifree, or_comm]
  | inode row =>
      refine h.pointers (.inode row) rfl (fun _ => ⟨by simp, by simp⟩) rfl _ fun ino => ?_
      obtain ⟨hcounts, -, -⟩ := rows_concat rows (.inode row)
      rw [hcounts, Row.linkCount?, Option.toList_some, lastValue_concat, Dict.get?_set,
        h.inodeDictLnkCnt]
  | indirect inodeNum level blockNum =>
      refine h.pointers (.indirect inodeNum level blockNum) rfl
        (fun _ => ⟨by simp, by simp⟩) rfl _ fun ino => ?_
      obtain ⟨hcounts, -, -⟩ := rows_concat rows (.indirect inodeNum level blockNum)
      rw [hcounts, show (Row.indirect inodeNum level blockNum).linkCount? = none from rfl,
        Option.toList_none, List.append_nil, h.inodeDictLnkCnt]
  | dirent d => exact h.dirent d
  | other =>
      refine h.free rfl rfl rfl rfl (fun block => ?_) fun ino => ?_
      · simp [h.bfree]
      · simp [h.ifree]

/-- The tables when all rows have been read. -/
theorem reads_summary (summary : Summary) : Reads summary.superblock summary.rows summary.read := by
  have hstart : Reads summary.superblock []
      { State.start with superblock := some summary.superblock } :=
    ⟨rfl, rfl, by simp [State.start], by simp [State.start], fun _ => rfl, fun _ => rfl,
      fun _ => rfl, fun _ => rfl, fun _ => rfl, by simp [State.start, dirents, Dict.Contains]⟩
  have hrun : ∀ rows done s, Reads summary.superblock done s →
      Reads summary.superblock (done ++ rows) (rows.foldl (Row.apply summary.superblock) s) := by
    intro rows
    induction rows with
    | nil => exact fun done s h => by simpa using h
    | cons row rows ih =>
        intro done s h
        simpa using ih (done ++ [row]) _ (h.step row)
  exact hrun summary.rows [] _ hstart

end Coursework.FileSystem
