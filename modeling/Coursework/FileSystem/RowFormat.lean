import Coursework.FileSystem.Lab3a
import Coursework.FileSystem.Correctness

/-!
# Reading the rows of the dump

What the auditor makes of the rows that the dump program prints. The times in an `INODE` row
contain a comma, so the field that the auditor takes for the block count is the access time and
`int()` raises an exception; a directory row has the type `DIRECT`, which the auditor ignores.
`never_recovered` says that no row gives back its data.
Vocabulary and scope: `Coursework.FileSystem.Lab3a`, `Coursework.FileSystem.Lab3b`.
-/

namespace Coursework.FileSystem

open Python Stdio

/-- The row of the inode is read without an exception and gives back the inode number, the link
count, the number of blocks and the block addresses. -/
def Ext2Inode.Recovered (inodeNumber : Int) (inode : Ext2Inode) : Prop :=
  ∃ line, inodeRow inodeNumber inode = some line ∧
    (∀ s : State, s.superblock.isSome → ∃ s', readLine s line = .ok s') ∧
    (split ',' line)[0]? = some "INODE".toList ∧
    ∃ curInode, (∀ report, FileSystem.inode report (split ',' line) = .ok curInode) ∧
      curInode.inoNum = inodeNumber ∧ curInode.linkCnt = inode.iLinksCount.toNat ∧
      curInode.blkCnt = inode.iBlocks.toNat ∧
      curInode.blkAddrs = inode.iBlock.toList.map fun block => (block.toNat : Int)

/-- The row of the entry is read without an exception in the `DIRENT` branch and gives back the
directory, the inode and the name in quotes. -/
def Ext2DirEntry.Recovered (inodeNumber logicalOffset : Int) (entry : Ext2DirEntry) : Prop :=
  ∃ line, direntRow inodeNumber logicalOffset entry = some line ∧
    (∀ s : State, s.superblock.isSome → ∃ s', readLine s line = .ok s') ∧
    (split ',' line)[0]? = some "DIRENT".toList ∧
    ∃ d, (∀ report, dirent report (split ',' line) = .ok d) ∧
      d.parentInode = inodeNumber ∧ d.inodeNum = entry.inode.toNat ∧ d.IsCalled entry.fileName

/-! ## The fields of a row -/

/-- Splitting a row splits its fields, and the line end stays with the last ones. -/
theorem split_csvRow (front : List Text) {fields : List Text} (h : fields ≠ []) :
    split ',' (csvRow (front ++ fields)) =
      front.flatMap (split ',') ++ split ',' (csvRow fields) := by
  induction front with
  | nil => rfl
  | cons field front ih =>
      have hcons : split ',' (csvRow (field :: (front ++ fields))) =
          split ',' field ++ split ',' (csvRow (front ++ fields)) := by
        rw [csvRow, csvRow, List.intercalate_cons_of_ne_nil (by simp [h]), List.append_assoc,
          List.append_assoc]
        exact List.splitOn_append_cons_self field _
      rw [List.cons_append, hcons, ih, List.flatMap_cons, List.append_assoc]

/-- A text without a comma is one field. -/
theorem split_eq_self {text : Text} (h : ',' ∉ text) : split ',' text = [text] :=
  List.splitOn_eq_singleton h

/-- No digit is a comma. -/
theorem comma_not_mem {text : Text} (h : ∀ c ∈ text, c = '-' ∨ c.isDigit) : ',' ∉ text :=
  fun hmem => (h _ hmem).elim (by decide) (by decide)

/-- A number is one field. -/
theorem split_decimal (n : Int) : split ',' (decimal n) = [decimal n] :=
  split_eq_self (comma_not_mem fun _ => isDigit_of_mem_decimal)

/-- A padded octal number is one field. -/
theorem split_octalPadded (width n : Nat) :
    split ',' (octalPadded width n) = [octalPadded width n] :=
  split_eq_self (comma_not_mem fun _ hc => .inr (isDigit_of_mem_octalPadded hc))

/-- The file type is one field. -/
theorem split_fileType (iMode : UInt16) : split ',' [fileType iMode] = [[fileType iMode]] := by
  refine split_eq_self ?_
  unfold fileType
  split
  · decide
  · split
    · decide
    · split <;> decide

/-- A date has no comma. -/
theorem split_dateText (info : Tm) : split ',' (dateText info) = [dateText info] := by
  have hpadded : ∀ n, ',' ∉ decimalPadded 2 n := fun n =>
    comma_not_mem fun _ hc => .inr (isDigit_of_mem_decimalPadded hc)
  have hyear : ',' ∉ decimal (info.tmYear % 100 : Nat) :=
    comma_not_mem fun _ => isDigit_of_mem_decimal
  refine split_eq_self ?_
  simp only [dateText, List.mem_append, List.mem_cons, hpadded, hyear, or_false, false_or]
  decide

/-- A time is two fields. -/
theorem split_getTime {rawtime : UInt32} {buf : Text} (h : getTime rawtime = some buf) :
    split ',' buf = [dateText (gmtime rawtime.toNat), " GMT".toList] := by
  rw [eq_of_sprintf h, split, List.splitOn_append_cons_self, ← split, split_dateText]
  rfl

/-- A date is no number. -/
theorem int_dateText (info : Tm) : int (dateText info) = none :=
  int_eq_none_of_mem (c := '/') (by simp [dateText]) (by decide)

/-- The fields of an `INODE` row up to the access time. -/
theorem fields_inodeRow {inodeNumber : Int} {inode : Ext2Inode} {line : Text}
    (h : inodeRow inodeNumber inode = some line) :
    ∃ rest, split ',' line = "INODE".toList :: decimal inodeNumber :: [fileType inode.iMode] ::
      octalPadded 4 (inode.iMode &&& 0x0fff).toNat :: decimal inode.iUid.toNat ::
      decimal inode.iGid.toNat :: decimal inode.iLinksCount.toNat ::
      dateText (gmtime inode.iCtime.toNat) :: " GMT".toList ::
      dateText (gmtime inode.iMtime.toNat) :: " GMT".toList ::
      dateText (gmtime inode.iAtime.toNat) :: rest := by
  simp only [inodeRow, bind, Option.bind_eq_some_iff] at h
  obtain ⟨blkAddrs, -, ctimeBuf, hctime, mtimeBuf, hmtime, atimeBuf, hatime, heq⟩ := h
  cases heq
  have htype : split ',' "INODE".toList = ["INODE".toList] := by decide
  refine ⟨" GMT".toList :: split ',' (csvRow [decimal (asInt inode.iSize),
    decimal (asInt inode.iBlocks), blkAddrs]), ?_⟩
  have hsplit := split_csvRow ["INODE".toList, decimal inodeNumber, [fileType inode.iMode],
    octalPadded 4 (inode.iMode &&& 0x0fff).toNat, decimal inode.iUid.toNat,
    decimal inode.iGid.toNat, decimal inode.iLinksCount.toNat, ctimeBuf, mtimeBuf, atimeBuf]
    (List.cons_ne_nil (decimal (asInt inode.iSize)) [decimal (asInt inode.iBlocks), blkAddrs])
  simp only [List.flatMap_cons, List.flatMap_nil, htype, split_decimal, split_fileType,
    split_octalPadded, split_getTime hctime, split_getTime hmtime, split_getTime hatime,
    List.cons_append, List.nil_append, List.append_nil] at hsplit
  exact hsplit

/-! ## Reading a row -/

/-- A row of type `INODE` is read in the `INODE` branch. -/
theorem readLine_inode {line summaryType : Text} (s : State)
    (h : (split ',' line)[0]? = some summaryType) (htype : summaryType = "INODE".toList) :
    readLine s line = readInode s (split ',' line) := by
  simp only [readLine, index_eq h, bind, Except.bind]
  rw [if_neg (by rw [htype]; decide), if_neg (by rw [htype]; decide),
    if_neg (by rw [htype]; decide), if_pos htype]

/-- The reader raises an exception on every `INODE` row. -/
theorem readLine_inodeRow {inodeNumber : Int} {inode : Ext2Inode} {line : Text} (s : State)
    (h : inodeRow inodeNumber inode = some line) :
    readLine s line = raise s.report .valueError := by
  obtain ⟨rest, hsplit⟩ := fields_inodeRow h
  have hnumber : ∀ n, toInt s.report (decimal n) = .ok n := fun n => by
    rw [toInt, show int (decimal n) = some n from int_str n]
  have hdate : toInt s.report (dateText (gmtime inode.iAtime.toNat)) =
      raise s.report .valueError := by
    rw [toInt, int_dateText]
  have hfield : ∀ i text, (split ',' line)[i]? = some text →
      intField s.report (split ',' line) i = toInt s.report text := fun i text hi => by
    rw [intField, index_eq hi]
    rfl
  -- the exception comes from the twelfth field, which is the date of the access time
  have hraises : readInode s (split ',' line) = raise s.report .valueError := by
    rw [readInode, FileSystem.inode, hfield 1 _ (by rw [hsplit]; rfl),
      hfield 6 _ (by rw [hsplit]; rfl), hfield 11 _ (by rw [hsplit]; rfl), hnumber, hnumber, hdate,
      index_eq (by rw [hsplit]; rfl)]
    rfl
  have htype : (split ',' line)[0]? = some "INODE".toList := by
    rw [hsplit]
    rfl
  rw [readLine_inode s htype rfl, hraises]

/-- The first field of a directory row. -/
theorem type_direntRow {inodeNumber logicalOffset : Int} {entry : Ext2DirEntry} {line : Text}
    (h : direntRow inodeNumber logicalOffset entry = some line) :
    (split ',' line)[0]? = some "DIRECT".toList := by
  simp only [direntRow, bind, Option.bind_eq_some_iff] at h
  obtain ⟨name, -, heq⟩ := h
  cases heq
  rw [← List.singleton_append, split_csvRow _ (List.cons_ne_nil _ _), List.flatMap_singleton,
    split_eq_self (by decide)]
  rfl

/-- No inode is read back from its row. -/
theorem Ext2Inode.not_recovered (inodeNumber : Int) (inode : Ext2Inode) :
    ¬ inode.Recovered inodeNumber := by
  intro ⟨line, hline, hread, _⟩
  obtain ⟨s', hs'⟩ := hread { State.start with superblock := some ⟨0, 0, 0, 0, 0, 0, 0⟩ } rfl
  rw [readLine_inodeRow _ hline] at hs'
  cases hs'

/-- No directory entry is read back from its row. -/
theorem Ext2DirEntry.not_recovered (inodeNumber logicalOffset : Int) (entry : Ext2DirEntry) :
    ¬ entry.Recovered inodeNumber logicalOffset := by
  intro ⟨line, hline, _, htype, _⟩
  rw [type_direntRow hline] at htype
  exact absurd htype (by decide)

/-- No row gives back its data, whichever inode or directory entry it is printed for. -/
theorem never_recovered (inodeNumber logicalOffset : Int) (inode : Ext2Inode)
    (entry : Ext2DirEntry) :
    ¬ inode.Recovered inodeNumber ∧ ¬ entry.Recovered inodeNumber logicalOffset :=
  ⟨inode.not_recovered inodeNumber, entry.not_recovered inodeNumber logicalOffset⟩

/-- A root directory with one block. -/
def rootInode : Ext2Inode :=
  ⟨0x41ED, 0, 1024, 0, 0, 0, 0, 2, 2, #v[8, 0, 0, 0, 0, 0, 0, 0, 0, 0, 0, 0, 0, 0, 0]⟩

/-- An entry `usr` for inode 11. -/
def usrEntry : Ext2DirEntry :=
  ⟨11, 12, 3, .ofFn fun i => "usr".toList.getD i '\x00', '\x00'⟩

/-- The rows of the root directory and of its entry are printed and not read back. -/
theorem root_not_recovered :
    (rootInode.IsAllocated ∧ rootInode.PrintsBlkAddrs ∧ ¬ rootInode.Recovered 2 ∧
      inodeRow 2 rootInode = some (csvRow (["INODE", "2", "d", "0755", "0", "0", "2",
        "01/01/70 00:00:00", " GMT", "01/01/70 00:00:00", " GMT", "01/01/70 00:00:00", " GMT",
        "1024", "2", "8", "0", "0", "0", "0", "0", "0", "0", "0", "0", "0", "0", "0", "0",
        "0"].map String.toList))) ∧
    usrEntry.inode ≠ 0 ∧ ¬ usrEntry.Recovered 2 24 ∧
      direntRow 2 24 usrEntry = some "DIRECT,2,24,11,12,3,usr\n".toList := by
  refine ⟨⟨by decide, by decide, rootInode.not_recovered 2, by decide +kernel⟩, by decide,
    usrEntry.not_recovered 2 24, by decide +kernel⟩

end Coursework.FileSystem
