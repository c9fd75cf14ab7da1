import Coursework.FileSystem.Correctness

/-!
# What is reported about blocks

The pass over the block numbers, and the lines that the reader prints about the pointers of a row.
`blockPass_reports` says which lines the pass prints. `classified_iff` says for which pointers the
reader prints the right lines: it takes the number behind the last block for a block, gives every
direct pointer the offset 0, and does not read the offset of an `INDIRECT` row, whose lines also
lack the blank in front of the level.
Vocabulary and scope: `Coursework.FileSystem.Passes`.
-/

namespace Coursework.FileSystem

open Python

variable {summary : Summary} {lines : List Text}

/-! ## The pass over the blocks -/

/-- The line about a block that is listed as free and referred to, or that is neither. -/
def Summary.IsDue (summary : Summary) (blk : Int) (m : Message) : Prop :=
  (m = .allocatedBlock blk ∧ .bfree blk ∈ summary.rows ∧ blk ∉ reservedBlocks ∧
    ∃ p ∈ pointers summary.rows, p.blockNum = blk) ∨
  (m = .unreferencedBlock blk ∧ .bfree blk ∉ summary.rows ∧ blk ∉ reservedBlocks ∧
    ∀ p ∈ pointers summary.rows, p.blockNum ≠ blk)

/-- A block has an entry in `block_dict` if some pointer refers to it and it is not reserved. -/
theorem refsTo_ne_nil_iff {rows : List Row} {blk : Int} (hlow : 1 ≤ blk) :
    refsTo rows blk ≠ [] ↔ blk ∉ reservedBlocks ∧ ∃ p ∈ pointers rows, p.blockNum = blk := by
  rw [refsTo, ne_eq, List.map_eq_nil_iff, List.filter_eq_nil_iff]
  simp only [decide_eq_true_eq]
  unfold Pointer.IsReserved
  push Not
  constructor
  · rintro ⟨p, hp, hfree, rfl⟩
    exact ⟨hfree (by omega), p, hp, rfl⟩
  · rintro ⟨hfree, p, hp, rfl⟩
    exact ⟨p, hp, fun _ => hfree, rfl⟩

/-- The lines about a block. -/
theorem mem_blockMessages_iff_isDue {blk : Int} (hlow : 1 ≤ blk) {m : Message} :
    m ∈ blockMessages summary.read blk ↔ summary.IsDue blk m := by
  have hrefs : refsTo summary.rows blk ≠ [] ↔ _ := refsTo_ne_nil_iff hlow
  rw [mem_blockMessages_iff, Summary.IsDue]
  by_cases hempty : refsTo summary.rows blk = []
  · have hnone : blk ∈ reservedBlocks ∨ ∀ p ∈ pointers summary.rows, p.blockNum ≠ blk := by
      have hnot := hrefs.not.1 (not_not_intro hempty)
      push Not at hnot
      exact or_iff_not_imp_left.2 hnot
    simp only [hempty, ne_eq, not_true_eq_false, false_and, and_false, true_and, false_or]
    constructor
    · rintro ⟨hfree, hres, rfl⟩
      exact .inr ⟨rfl, hfree, hres, hnone.resolve_left hres⟩
    · rintro (⟨-, -, hres, p, hp, hblk⟩ | ⟨rfl, hfree, hres, -⟩)
      · exact absurd hblk (hnone.resolve_left hres p hp)
      · exact ⟨hfree, hres, rfl⟩
  · obtain ⟨hres, p, hp, hblk⟩ := hrefs.1 hempty
    simp only [hempty, ne_eq, not_false_eq_true, true_and, false_and, and_false, or_false]
    constructor
    · rintro ⟨hfree, rfl⟩
      exact .inl ⟨rfl, hfree, hres, p, hp, hblk⟩
    · rintro (⟨rfl, hfree, -⟩ | ⟨-, -, -, hnone⟩)
      · exact ⟨hfree, rfl⟩
      · exact absurd hblk (hnone p hp)

/-- Lines about different blocks have different texts. -/
theorem render_injective_of_isDue {blk other : Int} {m m' : Message} (hm : summary.IsDue blk m)
    (hm' : summary.IsDue other m') (heq : m.render = m'.render) : blk = other := by
  have hnumber : ∀ {n n' : Int}, str n = str n' → n = n' := by
    intro n n' hstr
    have hint := int_str n
    rw [hstr, int_str] at hint
    exact (Option.some.inj hint).symm
  rcases hm with ⟨rfl, -⟩ | ⟨rfl, -⟩ <;> rcases hm' with ⟨rfl, -⟩ | ⟨rfl, -⟩
  · exact hnumber (List.append_cancel_left (List.append_cancel_right heq))
  · cases heq
  · cases heq
  · exact hnumber (List.append_cancel_left heq)

/-- Each block has at most one line. -/
theorem length_blockMessages_le (s : State) (blk : Int) : (blockMessages s blk).length ≤ 1 := by
  unfold blockMessages
  split
  · split <;> simp
  · split <;> simp

/-- `range(1, stop)` does not repeat a number. -/
theorem nodup_rangeFromOne (stop : Int) : (rangeFromOne stop).Nodup :=
  (List.nodup_range).map fun a b (h : (a : Int) + 1 = b + 1) => by omega

/-- On well-formed rows the reader comes to its end, and the pass over the blocks prints, once
each, the lines about allocated blocks on the free list and about unreferenced blocks. -/
theorem blockPass_reports (h : parse lines = some summary) :
    ∃ s printed, lines.foldlM readLine State.start = .ok s ∧
      (∀ report, blockPass s report = .ok (report.printAll printed)) ∧
      (printed.map Message.render).Nodup ∧
      ∀ m, m ∈ printed ↔
        ∃ blk, 1 ≤ blk ∧ blk ≤ summary.superblock.blkCnt ∧ summary.IsDue blk m := by
  have hlines : ∀ blk ∈ rangeFromOne (summary.superblock.blkCnt + 1), ∀ m,
      m ∈ blockMessages summary.read blk ↔ summary.IsDue blk m := fun blk hblk _ =>
    mem_blockMessages_iff_isDue (mem_rangeFromOne.1 hblk).1
  refine ⟨summary.read, _, read_eq h, fun report => blockPass_eq (reads_summary summary).super,
    ?_, fun m => ?_⟩
  · rw [List.map_flatMap, List.nodup_flatMap]
    refine ⟨fun blk _ => ?_, (nodup_rangeFromOne _).imp_of_mem fun hblk hother hne => ?_⟩
    · have hlength := length_blockMessages_le summary.read blk
      rcases hmessages : blockMessages summary.read blk with - | ⟨m, - | ⟨m', messages⟩⟩
      · exact List.nodup_nil
      · exact List.nodup_singleton _
      · rw [hmessages] at hlength
        simp at hlength
    · intro text htext htext'
      obtain ⟨m, hm, rfl⟩ := List.mem_map.1 htext
      obtain ⟨m', hm', heq⟩ := List.mem_map.1 htext'
      exact hne (render_injective_of_isDue ((hlines _ hblk m).1 hm) ((hlines _ hother m').1 hm')
        heq.symm)
  · rw [List.mem_flatMap]
    constructor
    · intro ⟨blk, hblk, hm⟩
      obtain ⟨hlow, hhigh⟩ := mem_rangeFromOne.1 hblk
      exact ⟨blk, hlow, Int.lt_add_one_iff.1 hhigh, (hlines blk hblk m).1 hm⟩
    · intro ⟨blk, hlow, hhigh, hdue⟩
      have hblk := mem_rangeFromOne.2 ⟨hlow, Int.lt_add_one_iff.2 hhigh⟩
      exact ⟨blk, hblk, (hlines blk hblk m).2 hdue⟩

/-- What the pass prints for the sample. -/
theorem sample_reports : ∃ s printed, (sampleLines []).foldlM readLine State.start = .ok s ∧
    (∀ report, blockPass s report = .ok (report.printAll printed)) ∧
    (printed.map Message.render).Nodup ∧
    ∀ m, m ∈ printed ↔ ∃ blk, 1 ≤ blk ∧ blk ≤ 10 ∧ (sample []).IsDue blk m :=
  blockPass_reports (parse_sampleLines [] rfl)

/-! ## The pointers of a row -/

/-- What a row says about a block: the inode that refers to it, the level of indirection and the
logical block offset. -/
structure RowPointer where
  blockNum : Int
  inodeNum : Int
  level : Int
  offset : Int

/-- The level of indirection of `blk_addrs[k]`. -/
def addrLevel (k : Nat) : Int :=
  if k < 12 then 0 else k - 11

/-- The offset of the first block below a root of each level. -/
def rootOffset (level : Int) : Int :=
  if level = 0 then 0 else if level = 1 then 12 else if level = 2 then 268 else 65804

/-- The logical block offset of `blk_addrs[k]`. -/
def addrOffset (k : Nat) : Int :=
  if k < 12 then k else rootOffset (addrLevel k)

/-- A pointer of a line, with its position if it is one of the block addresses of an inode. -/
inductive IsPointer (line : Text) : Option Nat → RowPointer → Prop where
  | inode {row k addr} : (split ',' line)[0]? = some "INODE".toList →
      parseInode (split ',' line) = some row → row.blkAddrs[k]? = some addr → addr ≠ 0 →
      IsPointer line (some k) ⟨addr, row.inoNum, addrLevel k, addrOffset k⟩
  | indirect {inodeNum level blockNum offset} : (split ',' line)[0]? = some "INDIRECT".toList →
      parseIndirect (split ',' line) = some (.indirect inodeNum level blockNum) →
      parseInt (split ',' line) 3 = some offset → blockNum ≠ 0 →
      IsPointer line none ⟨blockNum, inodeNum, level.toInt, offset⟩

/-- The reader on a line up to the check of a pointer. -/
def readBefore (s : State) (line : Text) : Option Nat → Result State
  | none => .ok s
  | some k => do
      let entry := split ',' line
      let inodeNum ← intField s.report entry 1
      let curInode ← inode s.report entry
      let s := { s with inodeDictLnkCnt := s.inodeDictLnkCnt.set inodeNum curInode.linkCnt }
      (List.range k).foldlM (readPointer inodeNum curInode.blkAddrs) s

/-- The check of the pointer. -/
def readAt (s : State) (line : Text) : Option Nat → Result State
  | none => readLine s line
  | some k => do
      let entry := split ',' line
      let inodeNum ← intField s.report entry 1
      let curInode ← inode s.report entry
      readPointer inodeNum curInode.blkAddrs s k

/-- The reader loop, when it comes to a pointer of a line, prints these messages. -/
def Reports (before : List Text) (line : Text) (k : Option Nat) (printed : List Message) : Prop :=
  ∃ s s' s'', before.foldlM readLine State.start = .ok s ∧ readBefore s line k = .ok s' ∧
    readAt s' line k = .ok s'' ∧ s''.report.printed = s'.report.printed ++ printed

/-- The name of a level of indirection in a message, with the blank behind `INVALID` or
`RESERVED`. -/
def levelName (level : Int) : Text :=
  if level = 0 then [] else if level = 1 then " INDIRECT".toList
  else if level = 2 then " DOUBLE INDIRECT".toList else " TRIPLE INDIRECT".toList

/-- The message is about the pointer: it names the block, the inode, the level and the offset. -/
def Message.Names (q : RowPointer) : Message → Prop
  | .invalidBlock strlvl blockNum inodeNum offset
  | .reservedBlock strlvl blockNum inodeNum offset =>
      strlvl = levelName q.level ∧ blockNum = q.blockNum ∧ inodeNum = q.inodeNum ∧
        offset = q.offset
  | _ => False

/-- The message says that a block is invalid. -/
def Message.SaysInvalid : Message → Prop
  | .invalidBlock .. => True
  | _ => False

/-- The message says that a block is reserved. -/
def Message.SaysReserved : Message → Prop
  | .reservedBlock .. => True
  | _ => False

/-- The messages about a pointer are right, where `metadata` are the metadata blocks. -/
structure RowPointer.Classified (metadata : Set Int) (superblock : Superblk) (q : RowPointer)
    (printed : List Message) : Prop where
  invalid : (∃ m ∈ printed, m.SaysInvalid) ↔
    q.blockNum < 0 ∨ superblock.blkCnt - 1 < q.blockNum
  reserved : (∃ m ∈ printed, m.SaysReserved) ↔ q.blockNum ∈ metadata
  named : ∀ m ∈ printed, m.Names q

variable {superblock : Superblk} {s s' : State} {p : Pointer} {q : RowPointer}

/-- Reading block addresses raises no exception and keeps the superblock. -/
theorem readPointers_ok {inodeNum : Int} {blkAddrs : List Int} {indices : List Nat}
    (hsuper : s.superblock = some superblock) (hindices : ∀ k ∈ indices, k < blkAddrs.length) :
    ∃ s', indices.foldlM (readPointer inodeNum blkAddrs) s = .ok s' ∧
      s'.superblock = some superblock := by
  induction indices generalizing s with
  | nil => exact ⟨s, rfl, hsuper⟩
  | cons k indices ih =>
      have hk := List.getElem?_eq_getElem (hindices k List.mem_cons_self)
      rw [List.foldlM_cons, readPointer_eq hsuper hk]
      refine ih ?_ fun i hi => hindices i (List.mem_cons_of_mem k hi)
      split
      · exact hsuper
      · exact hsuper

/-- Reading rows keeps the superblock. -/
theorem superblock_foldl_apply (rows : List Row) :
    (rows.foldl (Row.apply superblock) s).superblock = s.superblock := by
  induction rows generalizing s with
  | nil => rfl
  | cons row rows ih => rw [List.foldl_cons, ih, superblock_apply]

/-- The lines in front of a line after the first one are read, and the superblock is set. -/
theorem read_before {before after : List Text} {line : Text}
    (h : parse (before ++ line :: after) = some summary)
    (htype : (split ',' line)[0]? ≠ some "SUPERBLOCK".toList) :
    ∃ s, before.foldlM readLine State.start = .ok s ∧ s.superblock = some summary.superblock := by
  cases before with
  | nil =>
      simp only [List.nil_append, parse, bind, Option.bind_eq_some_iff, parseSuperblk] at h
      obtain ⟨superblock, hsuper, -⟩ := h
      rw [if_neg htype] at hsuper
      cases hsuper
  | cons first before =>
      simp only [List.cons_append, parse, bind, Option.bind_eq_some_iff] at h
      obtain ⟨superblock, hsuper, rows, hrows, heq⟩ := h
      cases heq
      simp only [List.mapM_append, bind, Option.bind_eq_some_iff] at hrows
      obtain ⟨front, hfront, -⟩ := hrows
      rw [List.foldlM_cons, superblk_eq hsuper]
      exact ⟨_, readLines_eq rfl hfront, superblock_foldl_apply front⟩

/-- The texts of the `INODE` branch name the level; its offsets are those of the first block below
a root, also for the direct blocks. -/
theorem pointerLevel_names : ∀ k < 15, (pointerLevel k).1 = levelName (addrLevel k) ∧
    (pointerLevel k).2.1 = rootOffset (addrLevel k) := by
  decide +kernel

/-- The texts of the `INDIRECT` branch lack the blank; its offsets are those of the first block
below a root too. -/
theorem Level.names (level : Level) :
    level.strlvl ≠ levelName level.toInt ∧ level.offset = rootOffset level.toInt := by
  cases level <;> decide +kernel

/-- The check of a pointer prints its messages. -/
theorem Pointer.printed_iff (p : Pointer) (printed : List Message) :
    (s.check superblock p).report.printed = s.report.printed ++ printed ↔
      printed = p.messages superblock := by
  simp only [State.check, Report.printAll_eq, List.append_cancel_left_eq]
  exact eq_comm

/-- What the reader prints when it comes to a pointer. -/
theorem reports_iff_of_read {before : List Text} {line : Text} {k : Option Nat}
    {printed : List Message} (hs : before.foldlM readLine State.start = .ok s)
    (hbefore : readBefore s line k = .ok s')
    (hat : readAt s' line k = .ok (s'.check superblock p)) :
    Reports before line k printed ↔ printed = p.messages superblock := by
  rw [← Pointer.printed_iff (s := s')]
  constructor
  · intro ⟨s₁, s₂, s₃, h₁, h₂, h₃, hprinted⟩
    obtain rfl := Except.ok.inj (hs.symm.trans h₁)
    obtain rfl := Except.ok.inj (hbefore.symm.trans h₂)
    obtain rfl := Except.ok.inj (hat.symm.trans h₃)
    exact hprinted
  · exact fun hprinted => ⟨s, s', _, hs, hbefore, hat, hprinted⟩

/-- The reader comes to every pointer of every line, and prints the messages about the pointer
that the row gives it. -/
theorem IsPointer.reports_iff {before after : List Text} {line : Text} {k : Option Nat}
    (h : parse (before ++ line :: after) = some summary) (hq : IsPointer line k q) :
    ∃ p : Pointer, (∀ printed, Reports before line k printed ↔
        printed = p.messages summary.superblock) ∧
      p.blockNum = q.blockNum ∧ p.blockNum ≠ 0 ∧ p.inodeNum = q.inodeNum ∧
      (p.strlvl = levelName q.level ↔ k.isSome) ∧ p.offset = rootOffset q.level := by
  cases hq with
  | @inode row k addr htype hrow haddr hne =>
      obtain ⟨s, hs, hsuper⟩ := read_before h (by rw [htype]; decide)
      have hk : k < row.blkAddrs.length := (List.getElem?_eq_some_iff.1 haddr).1
      have hread (report : Report) : FileSystem.inode report (split ',' line) = .ok row.toInode ∧
          intField report (split ',' line) 1 = .ok row.inoNum := inode_eq hrow
      let linked := { s with inodeDictLnkCnt := s.inodeDictLnkCnt.set row.inoNum row.linkCnt }
      have hlinked : linked.superblock = some summary.superblock := hsuper
      obtain ⟨s', hs', hsuper'⟩ : ∃ s', (List.range k).foldlM (readPointer row.inoNum row.blkAddrs)
          linked = .ok s' ∧ s'.superblock = some summary.superblock :=
        readPointers_ok hlinked fun i hi => (List.mem_range.1 hi).trans hk
      obtain ⟨hlevel, hoffset⟩ := pointerLevel_names k (row.length_eq ▸ hk)
      have hbefore : readBefore s line (some k) = .ok s' := by
        obtain ⟨hinode, hnum⟩ := hread s.report
        simp only [readBefore, hnum, hinode, bind, Except.bind]
        exact hs'
      have hat : readAt s' line (some k) = .ok (s'.check summary.superblock
          ⟨(pointerLevel k).1, addr, row.inoNum, (pointerLevel k).2.1, (pointerLevel k).2.2⟩) := by
        obtain ⟨hinode, hnum⟩ := hread s'.report
        simp only [readAt, hnum, hinode, bind, Except.bind]
        rw [readPointer_eq hsuper' haddr, if_neg hne]
      exact ⟨_, fun _ => reports_iff_of_read hs hbefore hat, rfl, hne, rfl,
        iff_of_true hlevel rfl, hoffset⟩
  | @indirect inodeNum level blockNum offset htype hrow hoffset hne =>
      obtain ⟨s, hs, hsuper⟩ := read_before h (by rw [htype]; decide)
      obtain ⟨hlevel, hoffset⟩ := level.names
      have hindirect : parseRow line = some (.indirect inodeNum level blockNum) := by
        simp only [parseRow, htype]
        exact hrow
      exact ⟨_, fun _ => reports_iff_of_read hs rfl (readLine_eq hsuper hindirect), rfl, hne, rfl,
        iff_of_false hlevel Bool.false_ne_true, hoffset⟩

/-- The pass over the duplicates prints nothing: it ends or raises a `NameError`. -/
theorem duplicatePass_silent (s : State) (report : Report) :
    duplicatePass s report = .ok report ∨
      duplicatePass s report = raise report (.nameError "block") := by
  unfold duplicatePass
  induction s.blockDict.entries with
  | nil => exact .inl rfl
  | cons entry entries ih =>
      obtain ⟨block, refs⟩ := entry
      rw [List.foldlM_cons]
      by_cases hmany : refs.length > 1
      · obtain ⟨ref, rest, rfl⟩ : ∃ ref rest, refs = ref :: rest := by
          cases refs with
          | nil => simp at hmany
          | cons ref rest => exact ⟨ref, rest, rfl⟩
        exact .inr (by simp only [hmany, if_true]; rfl)
      · simp only [hmany, if_false]
        exact ih

/-- The messages about a pointer say that it is invalid. -/
theorem Pointer.saysInvalid_iff :
    (∃ m ∈ p.messages superblock, m.SaysInvalid) ↔ p.IsInvalid superblock := by
  simp only [Pointer.mem_messages_iff]
  constructor
  · intro ⟨m, hm, hsays⟩
    rcases hm with ⟨hinvalid, -⟩ | ⟨-, rfl⟩
    · exact hinvalid
    · exact hsays.elim
  · exact fun hinvalid => ⟨_, .inl ⟨hinvalid, rfl⟩, trivial⟩

/-- The messages about a pointer say that it is reserved. -/
theorem Pointer.saysReserved_iff :
    (∃ m ∈ p.messages superblock, m.SaysReserved) ↔ p.IsReserved := by
  simp only [Pointer.mem_messages_iff]
  constructor
  · intro ⟨m, hm, hsays⟩
    rcases hm with ⟨-, rfl⟩ | ⟨hreserved, -⟩
    · exact hsays.elim
    · exact hreserved
  · exact fun hreserved => ⟨_, .inr ⟨hreserved, rfl⟩, trivial⟩

/-- The messages name the pointer, if there are any, as long as the text is that of its level and
the offset that of the root. -/
theorem Pointer.names_iff (hblock : p.blockNum = q.blockNum) (hinode : p.inodeNum = q.inodeNum)
    (hoffset : p.offset = rootOffset q.level) :
    (∀ m ∈ p.messages superblock, m.Names q) ↔ (p.IsInvalid superblock ∨ p.IsReserved →
      p.strlvl = levelName q.level ∧ q.offset = rootOffset q.level) := by
  have hname : ∀ m ∈ p.messages superblock,
      m.Names q ↔ p.strlvl = levelName q.level ∧ q.offset = rootOffset q.level := by
    intro m hm
    rw [← hoffset, @eq_comm _ q.offset]
    rcases Pointer.mem_messages_iff.1 hm with ⟨-, rfl⟩ | ⟨-, rfl⟩ <;>
      simp [Message.Names, hblock, hinode]
  constructor
  · intro hall halarm
    have hsome : ∃ m, m ∈ p.messages superblock := by
      rcases halarm with hinvalid | hreserved
      · exact ⟨_, Pointer.mem_messages_iff.2 (.inl ⟨hinvalid, rfl⟩)⟩
      · exact ⟨_, Pointer.mem_messages_iff.2 (.inr ⟨hreserved, rfl⟩)⟩
    obtain ⟨m, hm⟩ := hsome
    exact (hname m hm).1 (hall m hm)
  · intro hright m hm
    refine (hname m hm).2 (hright ?_)
    rcases Pointer.mem_messages_iff.1 hm with ⟨hinvalid, -⟩ | ⟨hreserved, -⟩
    · exact .inl hinvalid
    · exact .inr hreserved

/-- The pointers about which the reader prints the right messages: those that do not name the
block behind the last one and whose block is reserved exactly if it is a metadata block, and, if
something is printed, which are in an `INODE` row and have the offset of the first block below a
root. -/
theorem classified_iff (metadata : Set Int) {before after : List Text} {line : Text}
    {k : Option Nat} (h : parse (before ++ line :: after) = some summary)
    (hq : IsPointer line k q) :
    ∃ printed, (∀ messages, Reports before line k messages ↔ messages = printed) ∧
      (∀ s report, duplicatePass s report = .ok report ∨
        duplicatePass s report = raise report (.nameError "block")) ∧
      (q.Classified metadata summary.superblock printed ↔
        ¬ (0 ≤ q.blockNum ∧ q.blockNum = summary.superblock.blkCnt) ∧
        (q.blockNum ∈ reservedBlocks ↔ q.blockNum ∈ metadata) ∧
        (q.blockNum < 0 ∨ summary.superblock.blkCnt < q.blockNum ∨ q.blockNum ∈ reservedBlocks →
          k.isSome ∧ q.offset = rootOffset q.level)) := by
  obtain ⟨p, hprinted, hblock, hne, hinode, hlevel, hoffset⟩ := hq.reports_iff h
  refine ⟨_, hprinted, duplicatePass_silent, ?_⟩
  have hisInvalid : p.IsInvalid summary.superblock ↔
      q.blockNum < 0 ∨ summary.superblock.blkCnt < q.blockNum := by
    rw [← hblock]
    rfl
  have hisReserved : p.IsReserved ↔ q.blockNum ∈ reservedBlocks := by
    rw [← hblock]
    exact ⟨fun hreserved => hreserved.2, fun hmem => ⟨hne, hmem⟩⟩
  have hinvalid : (∃ m ∈ p.messages summary.superblock, m.SaysInvalid) ↔
      q.blockNum < 0 ∨ summary.superblock.blkCnt < q.blockNum :=
    Pointer.saysInvalid_iff.trans hisInvalid
  have hreserved : (∃ m ∈ p.messages summary.superblock, m.SaysReserved) ↔
      q.blockNum ∈ reservedBlocks :=
    Pointer.saysReserved_iff.trans hisReserved
  have hnamed : (∀ m ∈ p.messages summary.superblock, m.Names q) ↔
      (q.blockNum < 0 ∨ summary.superblock.blkCnt < q.blockNum ∨ q.blockNum ∈ reservedBlocks →
        k.isSome ∧ q.offset = rootOffset q.level) := by
    rw [Pointer.names_iff hblock hinode hoffset, hlevel, hisInvalid, hisReserved, or_assoc]
  constructor
  · intro hright
    refine ⟨fun hlast => ?_, hreserved.symm.trans hright.reserved, hnamed.1 hright.named⟩
    have hiff := hinvalid.symm.trans hright.invalid
    omega
  · intro ⟨hlast, hmetadata, hright⟩
    refine ⟨hinvalid.trans ?_, hreserved.trans hmetadata, hnamed.2 hright⟩
    omega

/-- An `INDIRECT` row of inode 11. -/
def indirectLine (offset blockNum : String) : Text :=
  csvLine ["INDIRECT", "11", "1", offset, "8", blockNum]

/-- Its block pointer. -/
theorem isPointer_indirectLine {offset blockNum : String} {off blk : Int} (hne : blk ≠ 0)
    (h : (split ',' (indirectLine offset blockNum))[0]? = some "INDIRECT".toList ∧
      parseIndirect (split ',' (indirectLine offset blockNum)) = some (.indirect 11 .single blk) ∧
      parseInt (split ',' (indirectLine offset blockNum)) 3 = some off) :
    IsPointer (indirectLine offset blockNum) none ⟨blk, 11, 1, off⟩ :=
  .indirect h.1 h.2.1 h.2.2 hne

/-- The `SUPERBLOCK` row of the sample. -/
def superblockLine : Text :=
  csvLine ["SUPERBLOCK", "10", "11", "1024", "128", "10", "11", "11"]

/-- The sample with a row of inode 11 is well-formed. -/
theorem parse_indirectLine {offset blockNum : String} {blk : Int}
    (h : parseRow (indirectLine offset blockNum) = some (.indirect 11 .single blk)) :
    parse ([superblockLine] ++ indirectLine offset blockNum :: (sampleLines []).tail) =
      some (sample [.indirect 11 .single blk]) :=
  parse_sampleLines [indirectLine offset blockNum] (by simp [h])

/-- The messages about the pointer of that row. -/
theorem reports_indirectLine {offset blockNum : String} {blk : Int}
    (h : parseRow (indirectLine offset blockNum) = some (.indirect 11 .single blk)) :
    Reports [superblockLine] (indirectLine offset blockNum) none
      (Pointer.messages (sample []).superblock ⟨"INDIRECT".toList, blk, 11, 12, 1⟩) := by
  let s : State := { State.start with superblock := some (sample []).superblock }
  have hsuper : parseSuperblk superblockLine = some (sample []).superblock := by decide +kernel
  have hs : [superblockLine].foldlM readLine State.start = .ok s := by
    rw [List.foldlM_cons, superblk_eq hsuper]
    rfl
  have hread : readAt s (indirectLine offset blockNum) none = .ok (s.check (sample []).superblock
      ⟨"INDIRECT".toList, blk, 11, 12, 1⟩) := readLine_eq rfl h
  exact (reports_iff_of_read hs rfl hread).2 rfl

/-- An `INODE` row of inode 11 whose single indirect root is block 99. -/
def inodeLine : Text :=
  csvLine ["INODE", "11", "f", "0644", "0", "0", "1", "01/01/20 00:00:00", "01/01/20 00:00:00",
    "01/01/20 00:00:00", "13312", "26", "0", "0", "0", "0", "0", "0", "0", "0", "0", "0", "0", "0",
    "99", "0", "0"]

/-- Its fields. -/
def inodeFields : InodeRow :=
  ⟨⟨11, "f".toList, 1, 26, [0, 0, 0, 0, 0, 0, 0, 0, 0, 0, 0, 0, 99, 0, 0]⟩, rfl⟩

/-- Block 99 lies far behind the file system, and the line about it is right. -/
theorem sample_classified : ∃ summary,
    parse ([superblockLine] ++ inodeLine :: (sampleLines []).tail) = some summary ∧
    IsPointer inodeLine (some 12) ⟨99, 11, 1, 12⟩ ∧ ∃ printed,
      (∀ messages, Reports [superblockLine] inodeLine (some 12) messages ↔ messages = printed) ∧
      RowPointer.Classified {blk | blk ∈ reservedBlocks} summary.superblock ⟨99, 11, 1, 12⟩
        printed := by
  have hrow : parseInode (split ',' inodeLine) = some inodeFields := by decide +kernel
  have htype : (split ',' inodeLine)[0]? = some "INODE".toList := by decide +kernel
  have hparse : parseRow inodeLine = some (.inode inodeFields) := by decide +kernel
  have hsummary : parse ([superblockLine] ++ inodeLine :: (sampleLines []).tail) =
      some (sample [.inode inodeFields]) := parse_sampleLines [inodeLine] (by simp [hparse])
  have hpointer : IsPointer inodeLine (some 12) ⟨99, 11, 1, 12⟩ :=
    .inode htype hrow rfl (by decide)
  obtain ⟨printed, hprinted, -, hright⟩ :=
    classified_iff {blk | blk ∈ reservedBlocks} hsummary hpointer
  exact ⟨_, hsummary, hpointer, printed, hprinted,
    hright.2 ⟨by decide, Iff.rfl, fun _ => ⟨rfl, by decide⟩⟩⟩

/-- No line about block 10, the one behind the last block; the line about a block further behind
names the offset of the root, not the one in the row; and where this is the same, its first word is
`INVALIDINDIRECT`. -/
theorem sample_not_classified :
    (∃ before line after k q summary printed, parse (before ++ line :: after) = some summary ∧
      IsPointer line k q ∧ Reports before line k printed ∧ q.blockNum = 10 ∧ printed = [] ∧
      ¬ q.Classified {blk | blk ∈ reservedBlocks} summary.superblock printed) ∧
    ∀ offset ∈ [12, 13], ∃ before line after k q summary printed,
      parse (before ++ line :: after) = some summary ∧ IsPointer line k q ∧
      Reports before line k printed ∧ q.offset = offset ∧
      printed.map Message.render =
        ["INVALIDINDIRECT BLOCK 99 IN INODE 11 AT OFFSET 12".toList] ∧
      ¬ q.Classified {blk | blk ∈ reservedBlocks} summary.superblock printed := by
  constructor
  · have hrow : parseRow (indirectLine "12" "10") = some (.indirect 11 .single 10) := by
      decide +kernel
    refine ⟨_, _, _, none, ⟨10, 11, 1, 12⟩, _, _, parse_indirectLine hrow,
      isPointer_indirectLine (by decide) (by decide +kernel), reports_indirectLine hrow, rfl,
      by decide +kernel, fun hright => ?_⟩
    have hprinted : Pointer.messages (sample []).superblock
        ⟨"INDIRECT".toList, 10, 11, 12, 1⟩ = [] := by decide +kernel
    obtain ⟨m, hm, -⟩ := hright.invalid.2 (.inr (by decide))
    rw [hprinted] at hm
    cases hm
  · intro offset hoffset
    have hline : ∃ text, parseRow (indirectLine text "99") = some (.indirect 11 .single 99) ∧
        IsPointer (indirectLine text "99") none ⟨99, 11, 1, offset⟩ := by
      simp only [List.mem_cons, List.not_mem_nil, or_false] at hoffset
      rcases hoffset with rfl | rfl
      · exact ⟨"12", by decide +kernel, isPointer_indirectLine (by decide) (by decide +kernel)⟩
      · exact ⟨"13", by decide +kernel, isPointer_indirectLine (by decide) (by decide +kernel)⟩
    obtain ⟨text, hrow, hpointer⟩ := hline
    refine ⟨_, _, _, none, _, _, _, parse_indirectLine hrow, hpointer, reports_indirectLine hrow,
      rfl, by decide +kernel, fun hright => ?_⟩
    have hnames := hright.named (.invalidBlock "INDIRECT".toList 99 11 12) (by decide +kernel)
    exact Level.single.names.1 hnames.1

end Coursework.FileSystem
