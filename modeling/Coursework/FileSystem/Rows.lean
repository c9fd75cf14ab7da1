import Coursework.FileSystem.Lab3b

/-!
# Well-formed summary rows

The rows of a summary as data: every integer field present, fifteen block addresses in an
`INODE` row, an `INDIRECT` level between 1 and 3. On a well-formed line the reader raises no
exception, and `Row.apply` is what it does (`readLine_eq`).
Vocabulary and scope: `Coursework.FileSystem.Lab3b`.
-/

namespace Coursework.FileSystem

open Python

/-- The level of an `INDIRECT` row. -/
inductive Level where
  | single
  | double
  | triple
  deriving DecidableEq

/-- The number in the row. -/
def Level.toInt : Level → Int
  | .single => 1
  | .double => 2
  | .triple => 3

/-- The text in the messages of the `INDIRECT` branch. -/
def Level.strlvl : Level → Text
  | .single => "INDIRECT".toList
  | .double => "DOUBLE INDIRECT".toList
  | .triple => "TRIPLE INDIRECT".toList

/-- The offset in the messages of the `INDIRECT` branch. -/
def Level.offset : Level → Int
  | .single => 12
  | .double => 268
  | .triple => 65804

/-- The level with a given number. -/
def Level.ofInt (n : Int) : Option Level :=
  if n = 1 then some .single
  else if n = 2 then some .double
  else if n = 3 then some .triple
  else none

/-- The number of the level with a given number. -/
theorem Level.toInt_of_ofInt {n : Int} {level : Level} (h : Level.ofInt n = some level) :
    level.toInt = n := by
  unfold Level.ofInt at h
  split at h
  · cases h
    exact Eq.symm ‹_›
  · split at h
    · cases h
      exact Eq.symm ‹_›
    · split at h
      · cases h
        exact Eq.symm ‹_›
      · cases h

/-- An inode with all its block addresses. -/
structure InodeRow extends Inode where
  length_eq : blkAddrs.length = 15
  deriving DecidableEq

/-- A well-formed row after the first. Rows of other types are ignored. -/
inductive Row where
  | bfree (block : Int)
  | ifree (ino : Int)
  | inode (row : InodeRow)
  | indirect (inodeNum : Int) (level : Level) (blockNum : Int)
  | dirent (d : Dirent)
  | other
  deriving DecidableEq

/-- A well-formed summary: the `SUPERBLOCK` row and the rows after it. -/
structure Summary where
  superblock : Superblk
  rows : List Row
  deriving DecidableEq

/-! ## Parsing -/

/-- An integer field. -/
def parseInt (entry : List Text) (i : Nat) : Option Int := do
  let text ← entry[i]?
  int text

/-- The fields of a `SUPERBLOCK` row. -/
def parseSuperblk (line : Text) : Option Superblk := do
  let entry := split ',' line
  if entry[0]? = some "SUPERBLOCK".toList then
    let blkCnt ← parseInt entry 1
    let inoCnt ← parseInt entry 2
    let blkSz ← parseInt entry 3
    let inoSz ← parseInt entry 4
    let blkPGp ← parseInt entry 5
    let inoPGp ← parseInt entry 6
    let firstIno ← parseInt entry 7
    pure ⟨blkCnt, inoCnt, blkSz, inoSz, blkPGp, inoPGp, firstIno⟩
  else none

/-- The fields of an `INODE` row. -/
def parseInode (entry : List Text) : Option InodeRow := do
  let inoNum ← parseInt entry 1
  let fileType ← entry[2]?
  let linkCnt ← parseInt entry 6
  let blkCnt ← parseInt entry 11
  let blkAddrs ← (slice 12 27 entry).mapM int
  if h : blkAddrs.length = 15 then pure ⟨⟨inoNum, fileType, linkCnt, blkCnt, blkAddrs⟩, h⟩
  else none

/-- The fields of an `INDIRECT` row. -/
def parseIndirect (entry : List Text) : Option Row := do
  let blockNum ← parseInt entry 5
  let inodeNum ← parseInt entry 1
  let number ← parseInt entry 2
  let level ← Level.ofInt number
  pure (.indirect inodeNum level blockNum)

/-- The fields of a `DIRENT` row. -/
def parseDirent (entry : List Text) : Option Dirent := do
  let dirName ← entry[6]?
  let inodeNum ← parseInt entry 3
  let parentInode ← parseInt entry 1
  pure ⟨parentInode, inodeNum, dirName⟩

/-- A line after the first. -/
def parseRow (line : Text) : Option Row :=
  let entry := split ',' line
  if entry[0]? = some "SUPERBLOCK".toList then none
  else if entry[0]? = some "IFREE".toList then (parseInt entry 1).map .ifree
  else if entry[0]? = some "BFREE".toList then (parseInt entry 1).map .bfree
  else if entry[0]? = some "INODE".toList then (parseInode entry).map .inode
  else if entry[0]? = some "INDIRECT".toList then parseIndirect entry
  else if entry[0]? = some "DIRENT".toList then (parseDirent entry).map .dirent
  else some .other

/-- The lines of a summary file made of well-formed rows, the `SUPERBLOCK` row first. -/
def parse : List Text → Option Summary
  | [] => none
  | first :: lines => do
      let superblock ← parseSuperblk first
      let rows ← lines.mapM parseRow
      pure ⟨superblock, rows⟩

/-! ## What a row does -/

/-- A block pointer of an `INODE` or `INDIRECT` row with the texts of its messages. -/
structure Pointer where
  strlvl : Text
  blockNum : Int
  inodeNum : Int
  offset : Int
  level : Int
  deriving DecidableEq

/-- The pointer at `blk_addrs[i]`; a block number 0 is no pointer. -/
def addrPointer (inodeNum : Int) (addr : Int × Nat) : Option Pointer :=
  if addr.1 = 0 then none
  else
    let (strlvl, offset, level) := pointerLevel addr.2
    some ⟨strlvl, addr.1, inodeNum, offset, level⟩

/-- The block addresses in use. -/
def InodeRow.pointers (row : InodeRow) : List Pointer :=
  row.blkAddrs.zipIdx.filterMap (addrPointer row.inoNum)

/-- The block pointers of a row. -/
def Row.pointers : Row → List Pointer
  | .inode row => row.pointers
  | .indirect inodeNum level blockNum =>
      [⟨level.strlvl, blockNum, inodeNum, level.offset, level.toInt⟩]
  | _ => []

/-- The pointer is reported as reserved and not entered in `block_dict`. -/
def Pointer.IsReserved (p : Pointer) : Prop :=
  p.blockNum ≠ 0 ∧ p.blockNum ∈ reservedBlocks

instance (p : Pointer) : Decidable p.IsReserved :=
  inferInstanceAs (Decidable (_ ∧ _))

/-- The pointer is reported as invalid. -/
def Pointer.IsInvalid (superblock : Superblk) (p : Pointer) : Prop :=
  p.blockNum < 0 ∨ superblock.blkCnt < p.blockNum

instance (superblock : Superblk) (p : Pointer) : Decidable (p.IsInvalid superblock) :=
  inferInstanceAs (Decidable (_ ∨ _))

/-- The messages about a pointer. -/
def Pointer.messages (superblock : Superblk) (p : Pointer) : List Message :=
  (if p.IsInvalid superblock then [.invalidBlock p.strlvl p.blockNum p.inodeNum p.offset]
    else []) ++
  (if p.IsReserved then [.reservedBlock p.strlvl p.blockNum p.inodeNum p.offset] else [])

/-- The reference of a pointer. -/
def Pointer.ref (p : Pointer) : Ref :=
  ⟨p.inodeNum, p.offset, p.level⟩

/-- The inode number of an entry is in range. -/
def Dirent.IsValid (superblock : Superblk) (d : Dirent) : Prop :=
  1 ≤ d.inodeNum ∧ d.inodeNum ≤ superblock.inoCnt

instance (superblock : Superblk) (d : Dirent) : Decidable (d.IsValid superblock) :=
  inferInstanceAs (Decidable (_ ∧ _))

/-- The messages about a directory entry. -/
def Dirent.messages (superblock : Superblk) (d : Dirent) : List Message :=
  if ¬ d.IsValid superblock then
    [.invalidInode d.parentInode (slice 0 (d.dirName.length - 2) d.dirName) d.inodeNum]
  else if IsDot d.dirName ∧ d.parentInode ≠ d.inodeNum then [.dotLink d.parentInode d.inodeNum]
  else []

/-- The messages printed while a row is read. -/
def Row.messages (superblock : Superblk) : Row → List Message
  | .dirent d => d.messages superblock
  | row => row.pointers.flatMap (Pointer.messages superblock)

/-- Print lines one after the other. -/
def Report.printAll (report : Report) (messages : List Message) : Report :=
  messages.foldl Report.print report

/-- The checks of a pointer. -/
def State.check (superblock : Superblk) (s : State) (p : Pointer) : State :=
  { s with
    report := s.report.printAll (p.messages superblock)
    blockDict := if p.IsReserved then s.blockDict else addRef s.blockDict p.blockNum p.ref
    strlvl := some p.strlvl
    offset := some p.offset }

/-- What the reader does with an entry. -/
def Dirent.apply (superblock : Superblk) (s : State) (d : Dirent) : State :=
  { s with
    report := s.report.printAll (d.messages superblock)
    refInode := s.refInode.set d.inodeNum d.dirName
    inodeDictRefLnkCnt := countLink s.inodeDictRefLnkCnt d.inodeNum
    inodeDictParents :=
      if d.IsValid superblock ∧ ¬ IsDot d.dirName ∧ IsDotDot d.dirName then
        s.inodeDictParents.set d.parentInode d.inodeNum
      else s.inodeDictParents
    inodeDictLr :=
      if d.IsValid superblock ∧ ¬ IsDot d.dirName ∧ ¬ IsDotDot d.dirName then
        s.inodeDictLr.set d.inodeNum d.parentInode
      else s.inodeDictLr }

/-- What the reader does with a row. -/
def Row.apply (superblock : Superblk) (s : State) : Row → State
  | .bfree block => { s with bfree := insert block s.bfree }
  | .ifree ino => { s with ifree := insert ino s.ifree }
  | .inode row => row.pointers.foldl (State.check superblock)
      { s with inodeDictLnkCnt := s.inodeDictLnkCnt.set row.inoNum row.linkCnt }
  | .indirect inodeNum level blockNum =>
      s.check superblock ⟨level.strlvl, blockNum, inodeNum, level.offset, level.toInt⟩
  | .dirent d => d.apply superblock s
  | .other => s

/-! ## The reader on well-formed rows -/

variable {report : Report} {entry : List Text} {superblock : Superblk} {s : State}

/-- A present item is read. -/
theorem index_eq {α : Type} {items : List α} {i : Nat} {item : α} (h : items[i]? = some item) :
    index report items i = .ok item := by
  simp [index, h]

/-- A present integer field is read. -/
theorem intField_eq {i : Nat} {n : Int} (h : parseInt entry i = some n) :
    intField report entry i = .ok n := by
  simp only [parseInt, bind, Option.bind_eq_some_iff] at h
  obtain ⟨text, htext, hint⟩ := h
  simp [intField, index_eq htext, toInt, hint, bind, Except.bind]

/-- A list of integer fields is read. -/
theorem mapM_toInt_eq {texts : List Text} {numbers : List Int}
    (h : texts.mapM int = some numbers) : texts.mapM (toInt report) = .ok numbers := by
  induction texts generalizing numbers with
  | nil =>
      cases h
      rfl
  | cons text texts ih =>
      simp only [List.mapM_cons, bind, Option.bind_eq_some_iff] at h
      obtain ⟨n, hint, rest, hrest, heq⟩ := h
      cases heq
      simp [toInt, hint, ih hrest, bind, Except.bind, pure, Except.pure]

/-- The superblock row is read. -/
theorem superblk_eq {line : Text} (h : parseSuperblk line = some superblock) :
    readLine s line = .ok { s with superblock := some superblock } := by
  simp only [parseSuperblk] at h
  split at h
  · next htype =>
      simp only [bind, Option.bind_eq_some_iff] at h
      obtain ⟨n₁, h₁, n₂, h₂, n₃, h₃, n₄, h₄, n₅, h₅, n₆, h₆, n₇, h₇, heq⟩ := h
      cases heq
      simp [readLine, index_eq htype, superblk, intField_eq h₁, intField_eq h₂, intField_eq h₃,
        intField_eq h₄, intField_eq h₅, intField_eq h₆, intField_eq h₇, bind, Except.bind, pure,
        Except.pure]
  · cases h

/-- The fields of a well-formed `INODE` row are read. -/
theorem inode_eq {row : InodeRow} (h : parseInode entry = some row) :
    inode report entry = .ok row.toInode ∧ intField report entry 1 = .ok row.inoNum := by
  simp only [parseInode, bind, Option.bind_eq_some_iff] at h
  obtain ⟨n₁, h₁, fileType, hfile, n₂, h₂, n₃, h₃, addrs, haddrs, h⟩ := h
  split at h
  · cases h
    refine ⟨?_, intField_eq h₁⟩
    simp [inode, intField_eq h₁, index_eq hfile, intField_eq h₂, intField_eq h₃,
      mapM_toInt_eq haddrs, bind, Except.bind, pure, Except.pure]
  · cases h

/-- Printing lines appends them. -/
theorem Report.printAll_eq (report : Report) (messages : List Message) :
    report.printAll messages =
      ⟨report.printed ++ messages, report.isConsistent && messages.isEmpty⟩ := by
  induction messages generalizing report with
  | nil => simp [printAll]
  | cons message messages ih =>
      rw [printAll, List.foldl_cons, ← printAll, ih]
      simp [print]

/-- Printing in two steps. -/
theorem Report.printAll_append (report : Report) (first second : List Message) :
    report.printAll (first ++ second) = (report.printAll first).printAll second :=
  List.foldl_append

/-- The checks of a pointer, once the superblock and the texts are known. -/
theorem checkBlock_eq (hsuper : s.superblock = some superblock) (p : Pointer) :
    checkBlock { s with strlvl := some p.strlvl, offset := some p.offset } p.blockNum p.inodeNum
      p.level = .ok (s.check superblock p) := by
  have hinvalid : p.IsInvalid superblock ↔ p.blockNum < 0 ∨ superblock.blkCnt < p.blockNum := .rfl
  have hreserved : p.IsReserved ↔ p.blockNum ≠ 0 ∧ p.blockNum ∈ reservedBlocks := .rfl
  by_cases hneg : p.blockNum < 0
  · have hnot : ¬ p.IsReserved := fun h => by
      have hpos : ∀ b ∈ reservedBlocks, 0 ≤ b := by decide
      have := hpos _ h.2
      omega
    have hnot' := hreserved.not.1 hnot
    simp [checkBlock, hneg, State.check, Pointer.messages, hinvalid, hnot, hnot', nameValue,
      State.print, Report.printAll, Pointer.ref, bind, Except.bind, pure, Except.pure]
  · by_cases hout : superblock.blkCnt < p.blockNum <;> by_cases hres : p.IsReserved <;>
      simp [checkBlock, hneg, hout, State.check, Pointer.messages, hinvalid, hres,
        ← hreserved, nameValue, hsuper, State.print, Report.printAll, Pointer.ref, bind,
        Except.bind, pure, Except.pure]

/-- A block address is read. -/
theorem readPointer_eq {inodeNum : Int} {blkAddrs : List Int} {k : Nat} {addr : Int}
    (hsuper : s.superblock = some superblock) (haddr : blkAddrs[k]? = some addr) :
    readPointer inodeNum blkAddrs s k = .ok (if addr = 0 then s else s.check superblock
      ⟨(pointerLevel k).1, addr, inodeNum, (pointerLevel k).2.1, (pointerLevel k).2.2⟩) := by
  by_cases hzero : addr = 0
  · simp only [readPointer, index_eq haddr, bind, Except.bind, if_pos hzero, pure, Except.pure]
  · have hcheck := checkBlock_eq hsuper
      ⟨(pointerLevel k).1, addr, inodeNum, (pointerLevel k).2.1, (pointerLevel k).2.2⟩
    simp only [readPointer, index_eq haddr, bind, Except.bind, if_neg hzero, hcheck]

/-- The loop over the block addresses of an inode, by induction on the addresses not yet read. -/
theorem readPointers_eq (inodeNum : Int) (front back : List Int) {s : State}
    (hsuper : s.superblock = some superblock) :
    (List.range' front.length back.length).foldlM (readPointer inodeNum (front ++ back)) s =
      .ok (((back.zipIdx front.length).filterMap (addrPointer inodeNum)).foldl
        (State.check superblock) s) := by
  induction back generalizing front s with
  | nil => rfl
  | cons addr back ih =>
      have hindex : (front ++ addr :: back)[front.length]? = some addr := by simp
      have hrest : ∀ {s : State}, s.superblock = some superblock → _ :=
        fun {s} => ih (front ++ [addr]) (s := s)
      simp only [List.append_assoc, List.singleton_append, List.length_append,
        List.length_singleton] at hrest
      rw [List.length_cons, List.range'_succ, List.foldlM_cons, List.zipIdx_cons]
      rw [readPointer_eq hsuper hindex]
      by_cases hzero : addr = 0
      · have hnone : addrPointer inodeNum (addr, front.length) = none := by
          simp [addrPointer, hzero]
        rw [List.filterMap_cons_none hnone, ← hrest hsuper, if_pos hzero]
        rfl
      · have hsome : addrPointer inodeNum (addr, front.length) =
            some ⟨(pointerLevel front.length).1, addr, inodeNum, (pointerLevel front.length).2.1,
              (pointerLevel front.length).2.2⟩ := by
          simp [addrPointer, hzero]
        rw [List.filterMap_cons_some hsome, List.foldl_cons, ← hrest, if_neg hzero]
        · rfl
        · exact hsuper

/-- A directory entry, once the superblock is known. -/
theorem readDirent_eq (hsuper : s.superblock = some superblock) (d : Dirent) :
    readDirent s d = .ok (d.apply superblock s) := by
  have hvalid : d.IsValid superblock ↔ 1 ≤ d.inodeNum ∧ d.inodeNum ≤ superblock.inoCnt := .rfl
  by_cases hin : d.IsValid superblock
  · obtain ⟨hlow, hhigh⟩ := hvalid.1 hin
    have hlow' : ¬ d.inodeNum < 1 := by omega
    have hhigh' : ¬ superblock.inoCnt < d.inodeNum := by omega
    by_cases hdot : IsDot d.dirName <;> by_cases hself : d.parentInode = d.inodeNum <;>
      by_cases hdots : IsDotDot d.dirName <;>
      simp [readDirent, hlow', hhigh', hdot, hself, hdots, Dirent.apply, hin, Dirent.messages,
        nameValue, hsuper, State.print, Report.printAll, bind, Except.bind, pure, Except.pure]
  · have hout : d.inodeNum < 1 ∨ ¬ d.inodeNum < 1 ∧ superblock.inoCnt < d.inodeNum := by
      rw [hvalid] at hin
      omega
    rcases hout with hlow | ⟨hlow, hhigh⟩
    · simp [readDirent, hlow, Dirent.apply, hin, Dirent.messages, State.print, Report.printAll,
        bind, Except.bind, pure, Except.pure]
    · simp [readDirent, hlow, hhigh, Dirent.apply, hin, Dirent.messages, nameValue, hsuper,
        State.print, Report.printAll, bind, Except.bind, pure, Except.pure]

/-- On a well-formed `INODE` row the reader raises no exception. -/
theorem readInode_eq (hsuper : s.superblock = some superblock) {row : InodeRow}
    (h : parseInode entry = some row) :
    readInode s entry = .ok ((Row.inode row).apply superblock s) := by
  obtain ⟨hinode, hnum⟩ : inode s.report entry = .ok row.toInode ∧
    intField s.report entry 1 = .ok row.inoNum := inode_eq h
  have hpointers := readPointers_eq row.inoNum [] row.blkAddrs
    (s := { s with inodeDictLnkCnt := s.inodeDictLnkCnt.set row.inoNum row.linkCnt }) hsuper
  rw [row.length_eq, List.length_nil, ← List.range_eq_range', List.nil_append] at hpointers
  simp only [readInode, hnum, hinode, bind, Except.bind]
  exact hpointers

/-- On a well-formed `INDIRECT` row the reader raises no exception. -/
theorem readIndirect_eq (hsuper : s.superblock = some superblock) {row : Row}
    (h : parseIndirect entry = some row) :
    readIndirect s entry = .ok (row.apply superblock s) := by
  simp only [parseIndirect, bind, Option.bind_eq_some_iff] at h
  obtain ⟨blockNum, hblock, inodeNum, hinode, number, hnumber, level, hlevel, heq⟩ := h
  cases heq
  have hcheck := checkBlock_eq hsuper ⟨level.strlvl, blockNum, inodeNum, level.offset, level.toInt⟩
  simp only [readIndirect, intField_eq hblock, intField_eq hinode, intField_eq hnumber, bind,
    Except.bind, ← Level.toInt_of_ofInt hlevel]
  cases level <;> exact hcheck

/-- The fields of a well-formed `DIRENT` row are read. -/
theorem dirent_eq {d : Dirent} (h : parseDirent entry = some d) :
    dirent report entry = .ok d := by
  simp only [parseDirent, bind, Option.bind_eq_some_iff] at h
  obtain ⟨dirName, hname, inodeNum, hinode, parentInode, hparent, heq⟩ := h
  cases heq
  simp [dirent, index_eq hname, intField_eq hinode, intField_eq hparent, bind, Except.bind, pure,
    Except.pure]

/-- On a well-formed row the reader raises no exception. -/
theorem readLine_eq (hsuper : s.superblock = some superblock) {line : Text} {row : Row}
    (h : parseRow line = some row) : readLine s line = .ok (row.apply superblock s) := by
  obtain ⟨summaryType, htype⟩ : ∃ summaryType, (split ',' line)[0]? = some summaryType :=
    ⟨_, List.getElem?_eq_getElem (List.length_pos_iff.2 (List.splitOn_ne_nil ',' line))⟩
  simp only [parseRow, htype, Option.some.injEq] at h
  simp only [readLine, index_eq htype, bind, Except.bind]
  by_cases hsuperblock : summaryType = "SUPERBLOCK".toList
  · rw [if_pos hsuperblock] at h
    cases h
  rw [if_neg hsuperblock] at h ⊢
  by_cases hifree : summaryType = "IFREE".toList
  · rw [if_pos hifree, Option.map_eq_some_iff] at h
    obtain ⟨n, hn, rfl⟩ := h
    rw [if_pos hifree, intField_eq hn]
    rfl
  rw [if_neg hifree] at h ⊢
  by_cases hbfree : summaryType = "BFREE".toList
  · rw [if_pos hbfree, Option.map_eq_some_iff] at h
    obtain ⟨n, hn, rfl⟩ := h
    rw [if_pos hbfree, intField_eq hn]
    rfl
  rw [if_neg hbfree] at h ⊢
  by_cases hinode : summaryType = "INODE".toList
  · rw [if_pos hinode, Option.map_eq_some_iff] at h
    obtain ⟨row, hrow, rfl⟩ := h
    rw [if_pos hinode, readInode_eq hsuper hrow]
  rw [if_neg hinode] at h ⊢
  by_cases hindirect : summaryType = "INDIRECT".toList
  · rw [if_pos hindirect] at h ⊢
    exact readIndirect_eq hsuper h
  rw [if_neg hindirect] at h ⊢
  by_cases hdirent : summaryType = "DIRENT".toList
  · rw [if_pos hdirent, Option.map_eq_some_iff] at h
    obtain ⟨d, hd, rfl⟩ := h
    rw [if_pos hdirent, dirent_eq hd]
    exact readDirent_eq hsuper d
  rw [if_neg hdirent] at h ⊢
  cases h
  rfl

/-- Checking pointers keeps the superblock. -/
theorem superblock_foldl_check (pointers : List Pointer) :
    (pointers.foldl (State.check superblock) s).superblock = s.superblock := by
  induction pointers generalizing s with
  | nil => rfl
  | cons p pointers ih => exact ih

/-- Reading a row keeps the superblock. -/
theorem superblock_apply (row : Row) : (row.apply superblock s).superblock = s.superblock := by
  cases row with
  | inode row => exact superblock_foldl_check _
  | _ => rfl

/-- On well-formed rows the reader raises no exception. -/
theorem readLines_eq (hsuper : s.superblock = some superblock) {lines : List Text}
    {rows : List Row} (h : lines.mapM parseRow = some rows) :
    lines.foldlM readLine s = .ok (rows.foldl (Row.apply superblock) s) := by
  induction lines generalizing s rows with
  | nil =>
      cases h
      rfl
  | cons line lines ih =>
      simp only [List.mapM_cons, bind, Option.bind_eq_some_iff] at h
      obtain ⟨row, hrow, rest, hrest, heq⟩ := h
      cases heq
      rw [List.foldlM_cons, readLine_eq hsuper hrow]
      exact ih ((superblock_apply row).trans hsuper) hrest

/-- The variables when all rows of a summary have been read. -/
def Summary.read (summary : Summary) : State :=
  summary.rows.foldl (Row.apply summary.superblock)
    { State.start with superblock := some summary.superblock }

/-- A well-formed summary file is read to its end. -/
theorem read_eq {lines : List Text} {summary : Summary} (h : parse lines = some summary) :
    lines.foldlM readLine State.start = .ok summary.read := by
  cases lines with
  | nil => cases h
  | cons first lines =>
      simp only [parse, bind, Option.bind_eq_some_iff] at h
      obtain ⟨superblock, hsuper, rows, hrows, heq⟩ := h
      cases heq
      rw [List.foldlM_cons, superblk_eq hsuper]
      exact readLines_eq rfl hrows

end Coursework.FileSystem
