import Coursework.Python.Dict
import Coursework.Python.Text
import Mathlib.Data.Finset.Insert

/-!
# The file system auditor

`lab3b.py` on the lines of a summary file. The module state is passed explicitly; every
lookup that can fail in Python (an index out of range, a text that is no number, a name that was
never assigned) ends the run with that exception and what has been printed so far. The dictionary
`inode_dict` is only written, so it is left out, as are the argument checks and the echo
of the file name.
Vocabulary and scope: `Coursework.Python.Dict`, `Coursework.Python.Text`.
-/

namespace Coursework.FileSystem

open Python

/-- The exceptions the script can end with. -/
inductive PyError where
  | indexError
  | valueError
  | nameError (name : String)
  deriving DecidableEq

/-- `reserved_blocks`. -/
def reservedBlocks : List Int :=
  [0, 1, 2, 3, 4, 5, 6, 7, 64]

/-- `reserved_inodes`. -/
def reservedInodes : List Int :=
  [1, 2, 3, 4, 5, 6, 7, 8, 9, 10]

/-- `class superblk`. -/
structure Superblk where
  blkCnt : Int
  inoCnt : Int
  blkSz : Int
  inoSz : Int
  blkPGp : Int
  inoPGp : Int
  firstIno : Int
  deriving DecidableEq

/-- `class inode`. -/
structure Inode where
  inoNum : Int
  fileType : Text
  linkCnt : Int
  blkCnt : Int
  blkAddrs : List Int
  deriving DecidableEq

/-- A reference `[inode_num, offset, level]` of `block_dict`. -/
structure Ref where
  inodeNum : Int
  offset : Int
  level : Int
  deriving DecidableEq

/-- The inconsistency lines that can be printed. -/
inductive Message where
  | invalidBlock (strlvl : Text) (blockNum inodeNum offset : Int)
  | reservedBlock (strlvl : Text) (blockNum inodeNum offset : Int)
  | invalidInode (parentInode : Int) (name : Text) (inodeNum : Int)
  | dotLink (parentInode inodeNum : Int)
  | allocatedBlock (blk : Int)
  | unreferencedBlock (blk : Int)
  | unallocatedInode (ino : Int)
  | allocatedInode (ino : Int)
  | rootParent (target : Int)
  | orphanParent (target parent : Int)
  | wrongParent (parent expected : Int)
  deriving DecidableEq

/-- The printed line. -/
def Message.render : Message → Text
  | .invalidBlock strlvl blockNum inodeNum offset =>
      "INVALID".toList ++ strlvl ++ " BLOCK ".toList ++ str blockNum ++ " IN INODE ".toList ++
        str inodeNum ++ " AT OFFSET ".toList ++ str offset
  | .reservedBlock strlvl blockNum inodeNum offset =>
      "RESERVED".toList ++ strlvl ++ " BLOCK ".toList ++ str blockNum ++ " IN INODE ".toList ++
        str inodeNum ++ " AT OFFSET ".toList ++ str offset
  | .invalidInode parentInode name inodeNum =>
      "DIRECTORY INODE ".toList ++ str parentInode ++ " NAME ".toList ++ name ++
        " INVALID INODE ".toList ++ str inodeNum
  | .dotLink parentInode inodeNum =>
      "DIRECTORY INODE ".toList ++ str parentInode ++ " NAME '.' LINK TO INODE ".toList ++
        str inodeNum ++ " SHOULD BE ".toList ++ str parentInode
  | .allocatedBlock blk => "ALLOCATED BLOCK ".toList ++ str blk ++ " ON FREELIST".toList
  | .unreferencedBlock blk => "UNREFERENCED BLOCK ".toList ++ str blk
  | .unallocatedInode ino => "UNALLOCATED INODE ".toList ++ str ino ++ " NOT ON FREELIST".toList
  | .allocatedInode ino => "ALLOCATED INODE ".toList ++ str ino ++ " ON FREELIST".toList
  | .rootParent target =>
      "DIRECTORY INODE 2 NAME '..' LINK TO INODE ".toList ++ str target ++ " SHOULD BE 2".toList
  | .orphanParent target parent =>
      "DIRECTORY INODE ".toList ++ str target ++ " NAME '..' LINK TO INODE ".toList ++
        str parent ++ " SHOULD BE ".toList ++ str target
  | .wrongParent parent expected =>
      "DIRECTORY INODE ".toList ++ str parent ++ " NAME '..' LINK TO INODE ".toList ++
        str parent ++ " SHOULD BE ".toList ++ str expected

/-- The output so far and `is_consistent`. -/
structure Report where
  printed : List Message
  isConsistent : Bool

/-- Set `is_consistent = False` and print a line. -/
def Report.print (report : Report) (message : Message) : Report :=
  ⟨report.printed ++ [message], false⟩

/-- The module variables. `strlvl` and `offset` keep their values from one row to the next. -/
structure State where
  report : Report
  superblock : Option Superblk
  bfree : Finset Int
  ifree : Finset Int
  blockDict : Dict Int (List Ref)
  inodeDictLnkCnt : Dict Int Int
  inodeDictRefLnkCnt : Dict Int Int
  inodeDictLr : Dict Int Int
  inodeDictParents : Dict Int Int
  refInode : Dict Int Text
  strlvl : Option Text
  offset : Option Int

/-- The variables before the first line is read. -/
def State.start : State where
  report := ⟨[], true⟩
  superblock := none
  bfree := ∅
  ifree := ∅
  blockDict := .empty
  inodeDictLnkCnt := .empty
  inodeDictRefLnkCnt := .empty
  inodeDictLr := .empty
  inodeDictParents := .empty
  refInode := .empty
  strlvl := none
  offset := none

/-- Print an inconsistency line. -/
def State.print (s : State) (message : Message) : State :=
  { s with report := s.report.print message }

/-- An exception and the output before it. -/
structure Failure where
  error : PyError
  report : Report

/-- The result of a statement. -/
abbrev Result := Except Failure

/-- Raise an exception. -/
def raise {α : Type} (report : Report) (error : PyError) : Result α :=
  .error ⟨error, report⟩

/-- `items[i]`. -/
def index {α : Type} (report : Report) (items : List α) (i : Nat) : Result α :=
  match items[i]? with
  | some item => .ok item
  | none => raise report .indexError

/-- `int(text)`. -/
def toInt (report : Report) (text : Text) : Result Int :=
  match int text with
  | some n => .ok n
  | none => raise report .valueError

/-- `int(entry[i])`. -/
def intField (report : Report) (entry : List Text) (i : Nat) : Result Int := do
  let text ← index report entry i
  toInt report text

/-- The value of a module variable. -/
def nameValue {α : Type} (report : Report) (name : String) : Option α → Result α
  | some value => .ok value
  | none => raise report (.nameError name)

/-- `superblk(entry)`. -/
def superblk (report : Report) (entry : List Text) : Result Superblk := do
  let blkCnt ← intField report entry 1
  let inoCnt ← intField report entry 2
  let blkSz ← intField report entry 3
  let inoSz ← intField report entry 4
  let blkPGp ← intField report entry 5
  let inoPGp ← intField report entry 6
  let firstIno ← intField report entry 7
  pure ⟨blkCnt, inoCnt, blkSz, inoSz, blkPGp, inoPGp, firstIno⟩

/-- `inode(entry)`. -/
def inode (report : Report) (entry : List Text) : Result Inode := do
  let inoNum ← intField report entry 1
  let fileType ← index report entry 2
  let linkCnt ← intField report entry 6
  let blkCnt ← intField report entry 11
  let blkAddrs ← (slice 12 27 entry).mapM (toInt report)
  pure ⟨inoNum, fileType, linkCnt, blkCnt, blkAddrs⟩

/-- The variables `strlvl`, `offset` and `level` for `blk_addrs[i]`. -/
def pointerLevel (i : Nat) : Text × Int × Int :=
  if i < 12 then ([], 0, 0)
  else if i = 12 then (" INDIRECT".toList, 12, 1)
  else if i = 13 then (" DOUBLE INDIRECT".toList, 268, 2)
  else (" TRIPLE INDIRECT".toList, 65804, 3)

/-- `block_dict[block_num].append(ref)`, with a new list for a new block. -/
def addRef (blockDict : Dict Int (List Ref)) (blockNum : Int) (ref : Ref) : Dict Int (List Ref) :=
  match blockDict.get? blockNum with
  | none => blockDict.set blockNum [ref]
  | some refs => blockDict.set blockNum (refs ++ [ref])

/-- The checks of a block number that the `INODE` and the `INDIRECT` branch share. -/
def checkBlock (s : State) (blockNum inodeNum level : Int) : Result State := do
  let outside ←
    if blockNum < 0 then pure true
    else do
      let superblock ← nameValue s.report "superblock" s.superblock
      pure (decide (superblock.blkCnt < blockNum))
  let s ←
    if outside then do
      let strlvl ← nameValue s.report "strlvl" s.strlvl
      let offset ← nameValue s.report "offset" s.offset
      pure (s.print (.invalidBlock strlvl blockNum inodeNum offset))
    else pure s
  if blockNum ≠ 0 ∧ blockNum ∈ reservedBlocks then do
    let strlvl ← nameValue s.report "strlvl" s.strlvl
    let offset ← nameValue s.report "offset" s.offset
    pure (s.print (.reservedBlock strlvl blockNum inodeNum offset))
  else do
    let offset ← nameValue s.report "offset" s.offset
    pure { s with blockDict := addRef s.blockDict blockNum ⟨inodeNum, offset, level⟩ }

/-- One iteration of the loop over the block addresses of an inode. -/
def readPointer (inodeNum : Int) (blkAddrs : List Int) (s : State) (i : Nat) : Result State := do
  let blockNum ← index s.report blkAddrs i
  if blockNum = 0 then pure s
  else
    let (strlvl, offset, level) := pointerLevel i
    checkBlock { s with strlvl := some strlvl, offset := some offset } blockNum inodeNum level

/-- The `INODE` branch. -/
def readInode (s : State) (entry : List Text) : Result State := do
  let inodeNum ← intField s.report entry 1
  let curInode ← inode s.report entry
  let s := { s with inodeDictLnkCnt := s.inodeDictLnkCnt.set inodeNum curInode.linkCnt }
  (List.range 15).foldlM (readPointer inodeNum curInode.blkAddrs) s

/-- The `INDIRECT` branch. -/
def readIndirect (s : State) (entry : List Text) : Result State := do
  let blockNum ← intField s.report entry 5
  let inodeNum ← intField s.report entry 1
  let level ← intField s.report entry 2
  let s :=
    -- no leading blank in these texts, unlike those of the `INODE` branch
    if level = 1 then { s with strlvl := some "INDIRECT".toList, offset := some 12 }
    else if level = 2 then { s with strlvl := some "DOUBLE INDIRECT".toList, offset := some 268 }
    else if level = 3 then { s with strlvl := some "TRIPLE INDIRECT".toList, offset := some 65804 }
    else s
  checkBlock s blockNum inodeNum level

/-- `dir_name[0:3] == "'.'"`. -/
def IsDot (dirName : Text) : Prop :=
  slice 0 3 dirName = "'.'".toList

/-- `dir_name[0:4] == "'..'"`. -/
def IsDotDot (dirName : Text) : Prop :=
  slice 0 4 dirName = "'..'".toList

instance (dirName : Text) : Decidable (IsDot dirName) :=
  inferInstanceAs (Decidable (_ = _))

instance (dirName : Text) : Decidable (IsDotDot dirName) :=
  inferInstanceAs (Decidable (_ = _))

/-- The fields the `DIRENT` branch reads: `parent_inode`, `inode_num` and `dir_name`. -/
structure Dirent where
  parentInode : Int
  inodeNum : Int
  dirName : Text
  deriving DecidableEq

/-- The assignments at the head of the `DIRENT` branch. -/
def dirent (report : Report) (entry : List Text) : Result Dirent := do
  let dirName ← index report entry 6
  let inodeNum ← intField report entry 3
  let parentInode ← intField report entry 1
  pure ⟨parentInode, inodeNum, dirName⟩

/-- `inode_dict_ref_lnk_cnt[inode_num] += 1`, from 1 for a new inode. -/
def countLink (links : Dict Int Int) (inodeNum : Int) : Dict Int Int :=
  match links.get? inodeNum with
  | none => links.set inodeNum 1
  | some count => links.set inodeNum (count + 1)

/-- The rest of the `DIRENT` branch. -/
def readDirent (s : State) (d : Dirent) : Result State := do
  let s := { s with
    refInode := s.refInode.set d.inodeNum d.dirName
    inodeDictRefLnkCnt := countLink s.inodeDictRefLnkCnt d.inodeNum }
  let invalid ←
    if d.inodeNum < 1 then pure true
    else do
      let superblock ← nameValue s.report "superblock" s.superblock
      pure (decide (superblock.inoCnt < d.inodeNum))
  if invalid then
    let name := slice 0 (d.dirName.length - 2) d.dirName
    pure (s.print (.invalidInode d.parentInode name d.inodeNum))
  else if IsDot d.dirName ∧ d.parentInode ≠ d.inodeNum then
    pure (s.print (.dotLink d.parentInode d.inodeNum))
  else if IsDot d.dirName then pure s
  else if IsDotDot d.dirName then
    pure { s with inodeDictParents := s.inodeDictParents.set d.parentInode d.inodeNum }
  else
    pure { s with inodeDictLr := s.inodeDictLr.set d.inodeNum d.parentInode }

/-- One iteration of the loop over the lines. -/
def readLine (s : State) (line : Text) : Result State := do
  let entry := split ',' line
  let summaryType ← index s.report entry 0
  if summaryType = "SUPERBLOCK".toList then do
    let superblock ← superblk s.report entry
    pure { s with superblock := some superblock }
  else if summaryType = "IFREE".toList then do
    let n ← intField s.report entry 1
    pure { s with ifree := insert n s.ifree }
  else if summaryType = "BFREE".toList then do
    let n ← intField s.report entry 1
    pure { s with bfree := insert n s.bfree }
  else if summaryType = "INODE".toList then readInode s entry
  else if summaryType = "INDIRECT".toList then readIndirect s entry
  else if summaryType = "DIRENT".toList then do
    let d ← dirent s.report entry
    readDirent s d
  else pure s

/-- `range(1, stop)`. -/
def rangeFromOne (stop : Int) : List Int :=
  (List.range (stop - 1).toNat).map fun k : Nat => (k : Int) + 1

/-- Links against link counts. The message refers to `linkcount`, which is never assigned. -/
def linkPass (s : State) (report : Report) : Result Report :=
  s.inodeDictLnkCnt.entries.foldlM (fun report (inoNum, lnkCnt) =>
    let links := (s.inodeDictRefLnkCnt.get? inoNum).getD 0
    if lnkCnt ≠ links then raise report (.nameError "linkcount") else pure report) report

/-- Unreferenced and misallocated blocks. -/
def blockPass (s : State) (report : Report) : Result Report := do
  let superblock ← nameValue report "superblock" s.superblock
  pure ((rangeFromOne (superblock.blkCnt + 1)).foldl (fun report blk =>
    if blk ∈ s.bfree then
      if s.blockDict.Contains blk then report.print (.allocatedBlock blk) else report
    else if ¬ s.blockDict.Contains blk ∧ blk ∉ reservedBlocks then
      report.print (.unreferencedBlock blk)
    else report) report)

/-- References to unallocated inodes. The message refers to `x`, which is never assigned. -/
def referencePass (s : State) (report : Report) : Result Report :=
  s.refInode.entries.foldlM (fun report (ino, _) =>
    if ino ∈ s.ifree ∧ s.inodeDictLr.Contains ino then raise report (.nameError "x")
    else pure report) report

/-- Allocated and unallocated inodes against the free inode bitmap. -/
def inodePass (s : State) (report : Report) : Result Report := do
  let superblock ← nameValue report "superblock" s.superblock
  pure ((rangeFromOne (superblock.inoCnt + 1)).foldl (fun report ino =>
    if ino ∉ s.ifree ∧ ¬ s.inodeDictLnkCnt.Contains ino ∧ ¬ s.inodeDictLr.Contains ino ∧
        ino ∉ reservedInodes then
      report.print (.unallocatedInode ino)
    else if s.inodeDictLnkCnt.Contains ino ∧ ino ∈ s.ifree then
      report.print (.allocatedInode ino)
    else report) report)

/-- Duplicate block references. The message refers to `block`, which is never assigned; `strlvl`
is, as soon as `block_dict` has an entry. -/
def duplicatePass (s : State) (report : Report) : Result Report :=
  s.blockDict.entries.foldlM (fun report (_, refs) =>
    if refs.length > 1 then
      refs.foldlM (fun report _ => raise report (.nameError "block")) report
    else pure report) report

/-- The `..` entries. -/
def directoryPass (s : State) (report : Report) : Report :=
  s.inodeDictParents.entries.foldl (fun report (parent, target) =>
    if parent = 2 ∧ target = 2 then report
    else if parent = 2 then report.print (.rootParent target)
    else match s.inodeDictLr.get? parent with
      | none => report.print (.orphanParent target parent)
      | some expected =>
          if target ≠ expected then report.print (.wrongParent parent expected) else report) report

/-- The script up to the exit status. -/
def audit (csvLines : List Text) : Result Report := do
  let s ← csvLines.foldlM readLine State.start
  let report ← linkPass s s.report
  let report ← blockPass s report
  let report ← referencePass s report
  let report ← inodePass s report
  let report ← duplicatePass s report
  pure (directoryPass s report)

/-- What the caller sees: the printed lines, the uncaught exception and the exit status. -/
structure Outcome where
  printed : List Message
  raised : Option PyError
  status : Nat
  deriving DecidableEq

/-- `lab3b.py` on a readable file with these lines. -/
def lab3b (csvLines : List Text) : Outcome :=
  match audit csvLines with
  | .ok report => ⟨report.printed, none, if report.isConsistent then 0 else 2⟩
  | .error failure => ⟨failure.report.printed, some failure.error, 1⟩

end Coursework.FileSystem
