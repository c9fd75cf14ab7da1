import Coursework.FileSystem.Image

/-!
# The loop over directory records

The part of `lab3a.c` that prints the entries of a directory: a loop over the twelve direct blocks
and in it a loop over the records of a block, which goes on by the record length that it has read.
The running offset is not set back between blocks, so only the first block that is not zero is
looked at. `terminates_iff` says when the loops end; `Tiling.lean` says what they print.
-/

namespace Coursework.FileSystem

open Python Stdio

/-- The size of `struct ext2_dir_entry`. -/
def dirEntrySize : Nat := 264

/-- A byte as a character. -/
def byteChar (byte : UInt8) : Char := .ofNat byte.toNat

/-- The structure in an array. -/
def direntAt (bytes : Memory) : Ext2DirEntry :=
  ⟨u32At bytes 0, u16At bytes 4, bytes 6, .ofFn fun j => byteChar (bytes (8 + j)),
    byteChar (bytes 263)⟩

/-- The row that is printed for an entry. -/
def entryRow (inodeNumber : Int) (logicalOffset : Nat) (dirCur : Ext2DirEntry) : DirectRow :=
  ⟨inodeNumber, logicalOffset, asInt dirCur.inode, dirCur.recLen.toNat, dirCur.nameLen.toNat,
    untilNul dirCur.nameBytes⟩

variable (image : Image) (blockSize : Nat) (inodeNumber : Int)

/-- The loop over the records of a block: `logical_offset` and `dir_data` afterwards. -/
def scanRecords (block : UInt32) : Nat → Nat → Memory → Dump (Nat × Memory)
  | 0, _, _ => .halt .unfinished
  | fuel + 1, logicalOffset, dirData =>
      if logicalOffset < blockSize then do
        let dirData ← image.pread blockSize (.directory block logicalOffset) dirEntrySize dirData
        let dirCur := direntAt dirData
        if dirCur.inode ≠ 0 then
          Trace.emit (.direct (entryRow inodeNumber logicalOffset dirCur))
        scanRecords block fuel (logicalOffset + dirCur.recLen.toNat) dirData
      else pure (logicalOffset, dirData)

/-- The loop over the direct blocks. -/
def scanBlocks (fuel : Nat) : List UInt32 → Nat → Memory → Dump Unit
  | [], _, _ => pure ()
  | block :: blocks, logicalOffset, dirData =>
      if block ≠ 0 then do
        let (logicalOffset, dirData) ←
          scanRecords image blockSize inodeNumber block fuel logicalOffset dirData
        scanBlocks fuel blocks logicalOffset dirData
      else scanBlocks fuel blocks logicalOffset dirData

/-- The first twelve block addresses. -/
def Ext2Inode.directBlocks (inode : Ext2Inode) : List UInt32 :=
  inode.iBlock.toList.take 12

/-- The entries of a directory, with what `dir_data` holds before. -/
def directoryEntries (fuel : Nat) (inode : Ext2Inode) (dirData : Memory) : Dump Unit :=
  scanBlocks image blockSize inodeNumber fuel inode.directBlocks 0 dirData

variable {image : Image} {blockSize : Nat} {inodeNumber : Int} {block : UInt32}
  {logicalOffset fuel : Nat} {dirData : Memory}

/-! ## One record -/

/-- `dir_data` after a record was read. -/
def Image.record (image : Image) (dirData : Memory) (offset : Int) : Memory :=
  image.fill dirData dirEntrySize offset.toNat

/-- Reading the same place again changes nothing. -/
theorem record_record (image : Image) (dirData : Memory) (offset : Int) :
    image.record (image.record dirData offset) offset = image.record dirData offset := by
  funext j
  unfold Image.record Image.fill
  split
  · rfl
  · rfl

/-- What the loop prints for a record. -/
def recordEvents (inodeNumber : Int) (logicalOffset : Nat) (dirData : Memory) : List Event :=
  if (direntAt dirData).inode ≠ 0 then
    [.direct (entryRow inodeNumber logicalOffset (direntAt dirData))]
  else []

/-- What the loop does with a record, and where it goes on. -/
theorem scanRecords_step {offset : Int} (hlt : logicalOffset < blockSize)
    (hoffset : (Access.directory block logicalOffset).offset blockSize = some offset)
    (hnonneg : 0 ≤ offset) :
    scanRecords image blockSize inodeNumber block (fuel + 1) logicalOffset dirData =
      let dirData' := image.record dirData offset
      let rest := scanRecords image blockSize inodeNumber block fuel
        (logicalOffset + (direntAt dirData').recLen.toNat) dirData'
      ⟨.access (.directory block logicalOffset) ::
        (recordEvents inodeNumber logicalOffset dirData' ++ rest.events), rest.result⟩ := by
  rw [scanRecords, if_pos hlt, pread_of_nonneg hoffset hnonneg, Trace.bind_of_ok rfl]
  by_cases hinode : (direntAt (image.record dirData offset)).inode ≠ 0
  · have hevents : recordEvents inodeNumber logicalOffset (image.record dirData offset) =
        [.direct (entryRow inodeNumber logicalOffset (direntAt (image.record dirData offset)))] :=
      if_pos hinode
    simp only [hevents]
    unfold Image.record at hinode
    simp only [if_pos hinode]
    rfl
  · have hevents : recordEvents inodeNumber logicalOffset (image.record dirData offset) = [] :=
      if_neg hinode
    simp only [hevents]
    unfold Image.record at hinode
    simp only [if_neg hinode]
    rfl

theorem scanRecords_of_none (hlt : logicalOffset < blockSize)
    (hoffset : (Access.directory block logicalOffset).offset blockSize = none) :
    (scanRecords image blockSize inodeNumber block (fuel + 1) logicalOffset dirData).result =
      .error .undefined := by
  rw [scanRecords, if_pos hlt, pread_of_none hoffset, Trace.bind_of_error rfl]

theorem scanRecords_of_neg {offset : Int} (hlt : logicalOffset < blockSize)
    (hoffset : (Access.directory block logicalOffset).offset blockSize = some offset)
    (hneg : offset < 0) :
    (scanRecords image blockSize inodeNumber block (fuel + 1) logicalOffset dirData).result =
      .error .exit := by
  rw [scanRecords, if_pos hlt, pread_of_neg hoffset hneg, Trace.bind_of_error rfl]

/-- A loop that is left could read its record. -/
theorem offset_of_ok (hlt : logicalOffset < blockSize) {after : Nat × Memory}
    (h : (scanRecords image blockSize inodeNumber block (fuel + 1) logicalOffset dirData).result =
      .ok after) :
    ∃ offset, (Access.directory block logicalOffset).offset blockSize = some offset ∧
      0 ≤ offset := by
  rw [scanRecords, if_pos hlt] at h
  exact offset_of_pread_ok h

theorem scanRecords_end (h : blockSize ≤ logicalOffset) :
    scanRecords image blockSize inodeNumber block (fuel + 1) logicalOffset dirData =
      pure (logicalOffset, dirData) := by
  rw [scanRecords, if_neg (Nat.not_lt.mpr h)]

/-! ## Termination -/

/-- A part of the program ends by itself or by a call of `exit`. -/
def Ends {α : Type} (run : Dump α) : Prop :=
  (∃ a, run.result = .ok a) ∨ run.result = .error .exit

theorem not_ends {α : Type} {run : Dump α} {stop : Halt} (h : run.result = .error stop)
    (hstop : stop ≠ .exit) : ¬ Ends run := by
  intro hends
  unfold Ends at hends
  rw [h] at hends
  rcases hends with ⟨a, hok⟩ | hexit
  · cases hok
  · exact hstop (Except.error.inj hexit)

/-- A loop that is not finished does not end. -/
theorem not_ends_of_unfinished {α : Type} {run : Dump α} (h : run.result = .error .unfinished) :
    ¬ Ends run :=
  not_ends h fun heq => nomatch heq

/-- Nor is anything said about what is undefined. -/
theorem not_ends_of_undefined {α : Type} {run : Dump α} (h : run.result = .error .undefined) :
    ¬ Ends run :=
  not_ends h fun heq => nomatch heq

/-- Behind the end of the block the loop ends. -/
theorem ends_of_le (h : blockSize ≤ logicalOffset) :
    Ends (scanRecords image blockSize inodeNumber block (fuel + 1) logicalOffset dirData) := by
  rw [scanRecords_end h]
  exact .inl ⟨_, rfl⟩

/-- The loop over the records of a block comes to an offset with these contents of `dir_data`. -/
inductive Reached (image : Image) (blockSize : Nat) (block : UInt32) (dirData : Memory) :
    Nat → Memory → Prop where
  | start : Reached image blockSize block dirData 0 dirData
  | next {logicalOffset bytes offset} : Reached image blockSize block dirData logicalOffset bytes →
      logicalOffset < blockSize →
      (Access.directory block logicalOffset).offset blockSize = some offset → 0 ≤ offset →
      Reached image blockSize block dirData
        (logicalOffset + (direntAt (image.record bytes offset)).recLen.toNat)
        (image.record bytes offset)

/-- The offset of the next record is an `int`, and the record, if it can be read, has a length. -/
def Progresses (image : Image) (blockSize : Nat) (block : UInt32) (logicalOffset : Nat)
    (dirData : Memory) : Prop :=
  ∃ offset, (Access.directory block logicalOffset).offset blockSize = some offset ∧
    (0 ≤ offset → (direntAt (image.record dirData offset)).recLen ≠ 0)

/-- A record of length 0 is read again and again. -/
theorem not_ends_of_recLen_eq_zero {offset : Int} (hlt : logicalOffset < blockSize)
    (hoffset : (Access.directory block logicalOffset).offset blockSize = some offset)
    (hnonneg : 0 ≤ offset) (hzero : (direntAt (image.record dirData offset)).recLen = 0)
    (inodeNumber : Int) (fuel : Nat) :
    (scanRecords image blockSize inodeNumber block fuel logicalOffset dirData).result =
      .error .unfinished := by
  induction fuel generalizing dirData with
  | zero => rfl
  | succ fuel ih =>
      rw [scanRecords_step hlt hoffset hnonneg]
      simp only [hzero]
      refine ih ?_
      rw [record_record, hzero]

/-- If the loop ends, it also ends from every place that it comes to. -/
theorem ends_of_reached {bytes : Memory}
    (hreached : Reached image blockSize block dirData logicalOffset bytes)
    (h : ∃ fuel, Ends (scanRecords image blockSize inodeNumber block fuel 0 dirData)) :
    ∃ fuel, Ends (scanRecords image blockSize inodeNumber block fuel logicalOffset bytes) := by
  induction hreached with
  | start => exact h
  | next _ hlt hoffset hnonneg ih =>
      obtain ⟨fuel, hends⟩ := ih
      cases fuel with
      | zero => exact absurd hends (not_ends_of_unfinished rfl)
      | succ fuel =>
          refine ⟨fuel, ?_⟩
          unfold Ends at hends ⊢
          rwa [scanRecords_step hlt hoffset hnonneg] at hends

/-- The loop over the records of a block ends exactly if it makes progress at every place that it
comes to. -/
theorem scanRecords_ends_iff :
    (∃ fuel, Ends (scanRecords image blockSize inodeNumber block fuel 0 dirData)) ↔
      ∀ logicalOffset bytes, Reached image blockSize block dirData logicalOffset bytes →
        logicalOffset < blockSize → Progresses image blockSize block logicalOffset bytes := by
  constructor
  · intro h logicalOffset bytes hreached hlt
    obtain ⟨fuel, hends⟩ := ends_of_reached hreached h
    cases fuel with
    | zero => exact absurd hends (not_ends_of_unfinished rfl)
    | succ fuel =>
        cases hoffset : (Access.directory block logicalOffset).offset blockSize with
        | none =>
            exact absurd hends (not_ends_of_undefined (scanRecords_of_none hlt hoffset))
        | some offset =>
            refine ⟨offset, hoffset, fun hnonneg hzero => ?_⟩
            have hstop :=
              not_ends_of_recLen_eq_zero hlt hoffset hnonneg hzero inodeNumber (fuel + 1)
            exact absurd hends (not_ends_of_unfinished hstop)
  · intro h
    -- what is left of the block becomes less with every record
    have hall : ∀ left logicalOffset bytes,
        Reached image blockSize block dirData logicalOffset bytes →
        blockSize - logicalOffset ≤ left →
        ∃ fuel, Ends (scanRecords image blockSize inodeNumber block fuel logicalOffset bytes) := by
      intro left
      induction left with
      | zero =>
          intro logicalOffset bytes _ hleft
          exact ⟨1, ends_of_le (by omega)⟩
      | succ left ih =>
          intro logicalOffset bytes hreached hleft
          by_cases hlt : logicalOffset < blockSize
          · obtain ⟨offset, hoffset, hlength⟩ := h logicalOffset bytes hreached hlt
            by_cases hneg : offset < 0
            · exact ⟨1, .inr (scanRecords_of_neg hlt hoffset hneg)⟩
            · have hnonneg : 0 ≤ offset := Int.not_lt.mp hneg
              have hpos : 0 < (direntAt (image.record bytes offset)).recLen.toNat :=
                Nat.pos_of_ne_zero fun hzero => hlength hnonneg (UInt16.toNat_inj.mp hzero)
              obtain ⟨fuel, hends⟩ := ih _ _ (hreached.next hlt hoffset hnonneg) (by omega)
              refine ⟨fuel + 1, ?_⟩
              unfold Ends at hends ⊢
              rwa [scanRecords_step hlt hoffset hnonneg]
          · exact ⟨1, ends_of_le (Nat.not_lt.mp hlt)⟩
    exact hall blockSize 0 dirData .start (Nat.sub_le _ _)

/-! ## The blocks of a directory -/

/-- A loop that is left has come to the end of its block. -/
theorem le_of_scanRecords {bytes bytes' : Memory} {end' : Nat}
    (h : (scanRecords image blockSize inodeNumber block fuel logicalOffset bytes).result =
      .ok (end', bytes')) : blockSize ≤ end' ∧ 0 < fuel := by
  induction fuel generalizing logicalOffset bytes with
  | zero => cases h
  | succ fuel ih =>
      refine ⟨?_, Nat.succ_pos fuel⟩
      by_cases hlt : logicalOffset < blockSize
      · obtain ⟨offset, hoffset, hnonneg⟩ := offset_of_ok hlt h
        rw [scanRecords_step hlt hoffset hnonneg] at h
        exact (ih h).1
      · rw [scanRecords_end (Nat.not_lt.mp hlt)] at h
        cases h
        exact Nat.not_lt.mp hlt

/-- Behind the end of a block nothing is read any more. -/
theorem scanBlocks_of_le (h : blockSize ≤ logicalOffset) (hfuel : 0 < fuel)
    (blocks : List UInt32) :
    scanBlocks image blockSize inodeNumber fuel blocks logicalOffset dirData = pure () := by
  induction blocks with
  | nil => rfl
  | cons block blocks ih =>
      obtain ⟨fuel, rfl⟩ := Nat.exists_eq_add_one_of_ne_zero (Nat.ne_of_gt hfuel)
      rw [scanBlocks]
      split
      · rw [scanRecords_end h]
        exact ih
      · exact ih

/-- Blocks with the number 0 are skipped. -/
theorem scanBlocks_zeros {zeros : List UInt32} (h : ∀ block ∈ zeros, block = 0)
    (blocks : List UInt32) :
    scanBlocks image blockSize inodeNumber fuel (zeros ++ blocks) logicalOffset dirData =
      scanBlocks image blockSize inodeNumber fuel blocks logicalOffset dirData := by
  induction zeros with
  | nil => rfl
  | cons block zeros ih =>
      rw [List.forall_mem_cons] at h
      rw [List.cons_append, scanBlocks, if_neg (not_not_intro h.1), ih h.2]

/-- Only the first block that is not zero is looked at. -/
theorem scanBlocks_cons (hblock : block ≠ 0) (blocks : List UInt32) :
    scanBlocks image blockSize inodeNumber fuel (block :: blocks) logicalOffset dirData =
      let run := scanRecords image blockSize inodeNumber block fuel logicalOffset dirData
      ⟨run.events, run.result.map fun _ => ()⟩ := by
  rw [scanBlocks, if_pos hblock]
  cases hrun :
    (scanRecords image blockSize inodeNumber block fuel logicalOffset dirData).result with
  | error stop =>
      rw [Trace.bind_of_error hrun]
      simp only [hrun]
      rfl
  | ok after =>
      obtain ⟨end', bytes'⟩ := after
      obtain ⟨hle, hfuel⟩ := le_of_scanRecords hrun
      rw [Trace.bind_of_ok hrun]
      simp only [hrun, scanBlocks_of_le hle hfuel, Trace.events_pure, List.append_nil]
      rfl

/-- A directory has no block, or there is a first one. -/
theorem exists_first_block (blocks : List UInt32) :
    (∀ block ∈ blocks, block = 0) ∨ ∃ zeros block rest, blocks = zeros ++ block :: rest ∧
      (∀ zero ∈ zeros, zero = 0) ∧ block ≠ 0 := by
  induction blocks with
  | nil => exact .inl (by simp)
  | cons block blocks ih =>
      by_cases hblock : block = 0
      · rcases ih with hall | ⟨zeros, first, rest, rfl, hzeros, hfirst⟩
        · exact .inl (List.forall_mem_cons.mpr ⟨hblock, hall⟩)
        · exact .inr ⟨block :: zeros, first, rest, rfl,
            List.forall_mem_cons.mpr ⟨hblock, hzeros⟩, hfirst⟩
      · exact .inr ⟨[], block, blocks, rfl, by simp, hblock⟩

/-- The first block that is not zero. -/
def Ext2Inode.firstBlock (inode : Ext2Inode) : Option UInt32 :=
  inode.directBlocks.find? (· ≠ 0)

/-- The loops end for a directory exactly if, in its first block, they make progress at every place
that they come to. -/
theorem terminates_iff (image : Image) (blockSize : Nat) (inodeNumber : Int) (inode : Ext2Inode)
    (dirData : Memory) :
    (∃ fuel, Ends (directoryEntries image blockSize inodeNumber fuel inode dirData)) ↔
      ∀ block, inode.firstBlock = some block → ∀ logicalOffset bytes,
        Reached image blockSize block dirData logicalOffset bytes → logicalOffset < blockSize →
        Progresses image blockSize block logicalOffset bytes := by
  unfold directoryEntries Ext2Inode.firstBlock
  rcases exists_first_block inode.directBlocks with hall | ⟨zeros, block, rest, hsplit, hzeros, hne⟩
  · have hnone : inode.directBlocks.find? (· ≠ 0) = none := by
      rw [List.find?_eq_none]
      intro block hblock
      simp [hall block hblock]
    have hskip :
        scanBlocks image blockSize inodeNumber 0 inode.directBlocks 0 dirData = pure () := by
      rw [← List.append_nil inode.directBlocks, scanBlocks_zeros hall]
      rfl
    rw [hnone]
    refine iff_of_true ⟨0, .inl ⟨(), by rw [hskip]; rfl⟩⟩ fun block hblock => ?_
    cases hblock
  · have hfirst : inode.directBlocks.find? (· ≠ 0) = some block := by
      rw [hsplit, List.find?_append, List.find?_eq_none.mpr fun zero hzero => by
        simp [hzeros zero hzero]]
      simp [hne]
    have hends : ∀ fuel,
        Ends (scanBlocks image blockSize inodeNumber fuel inode.directBlocks 0 dirData) ↔
          Ends (scanRecords image blockSize inodeNumber block fuel 0 dirData) := by
      intro fuel
      rw [hsplit, scanBlocks_zeros hzeros, scanBlocks_cons hne]
      have hmap : ∀ result : Except Halt (Nat × Memory),
          ((∃ a, result.map (fun _ => ()) = .ok a) ∨ result.map (fun _ => ()) = .error .exit) ↔
            (∃ a, result = .ok a) ∨ result = .error .exit := by
        intro result
        cases result <;> simp [Except.map]
      exact hmap _
    simp only [hends, hfirst, scanRecords_ends_iff, Option.some.injEq, forall_eq']

/-- The inode of a directory with these two block addresses. -/
def directoryOf (first second : UInt32) : Ext2Inode :=
  ⟨0x41ED, 0, 1024, 0, 0, 0, 0, 2, 2,
    .ofFn fun i => if i.val = 0 then first else if i.val = 1 then second else 0⟩

theorem directBlocks_directoryOf (first second : UInt32) :
    (directoryOf first second).directBlocks = first :: second :: List.replicate 10 0 := by
  unfold directoryOf Ext2Inode.directBlocks
  rw [Vector.toList_ofFn]
  rfl

/-- An image of zeros. -/
def zeroImage : Image := ⟨16384, fun _ => 0⟩

/-- A block of zeros is read for ever: its record has the length 0. -/
theorem zeros_never_end :
    ¬ ∃ fuel, Ends (directoryEntries zeroImage 1024 2 fuel (directoryOf 8 0) fun _ => 0) := by
  have hoffset : (Access.directory 8 0).offset 1024 = some 8192 := by decide
  have hlength : (direntAt (zeroImage.record (fun _ => 0) 8192)).recLen = 0 := by decide
  intro h
  obtain ⟨fuel, hends⟩ := h
  have hscan : (scanRecords zeroImage 1024 2 8 fuel 0 fun _ => 0).result = .error .unfinished :=
    not_ends_of_recLen_eq_zero (by decide) hoffset (by decide) hlength 2 fuel
  rw [directoryEntries, directBlocks_directoryOf, scanBlocks_cons (by decide)] at hends
  refine absurd hends (not_ends_of_unfinished ?_)
  simp only [hscan]
  rfl

end Coursework.FileSystem
