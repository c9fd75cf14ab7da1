import Coursework.FileSystem.Directory

/-!
# The rows of a directory

What the loop over directory records prints for a directory whose blocks are tiled by records. The
offset in a row lacks the number of the block, the loop does not come to a second block, and the
name of a record ends where a zero byte happens to be. `listed_iff` says when the rows are right all
the same.
Vocabulary and scope: `Coursework.FileSystem.Image`, `Coursework.FileSystem.Directory`.
-/

namespace Coursework.FileSystem

open Numbers Python Stdio

/-- The entry at a place of the image. -/
def Image.entryAt (image : Image) (position : Nat) : Ext2DirEntry :=
  direntAt fun j => image.byte (position + j)

/-- From an offset to its end, a block is tiled by records at these offsets. -/
inductive Tiled (image : Image) (start blockSize : Nat) : Nat → List Nat → Prop where
  | done : Tiled image start blockSize blockSize []
  | record {offset rest} : offset < blockSize →
      start + offset + 8 + (image.entryAt (start + offset)).nameLen.toNat ≤ image.size →
      0 < (image.entryAt (start + offset)).recLen.toNat →
      Tiled image start blockSize (offset + (image.entryAt (start + offset)).recLen.toNat) rest →
      Tiled image start blockSize offset (offset :: rest)

/-- The row that a record should have. -/
def Image.rightRow (image : Image) (inodeNumber : Int) (logicalStart start offset : Nat) :
    DirectRow :=
  let entry := image.entryAt (start + offset)
  ⟨inodeNumber, ((logicalStart + offset : Nat) : Int), entry.inode.toNat, entry.recLen.toNat,
    entry.nameLen.toNat, some entry.fileName⟩

/-- The rows that the records of a block should have. -/
def Image.rightRows (image : Image) (inodeNumber : Int) (logicalStart start : Nat)
    (offsets : List Nat) : List DirectRow :=
  (offsets.filter fun offset => (image.entryAt (start + offset)).inode ≠ 0).map
    (image.rightRow inodeNumber logicalStart start)

/-- The rows that the records of the blocks from number `i` on should have. -/
def Image.blockRows (image : Image) (blockSize : Nat) (inodeNumber : Int) (tiles : Nat → List Nat) :
    Nat → List UInt32 → List DirectRow
  | _, [] => []
  | i, block :: blocks =>
      (if block ≠ 0 then
        image.rightRows inodeNumber (i * blockSize) (block.toNat * blockSize) (tiles i)
      else []) ++ image.blockRows blockSize inodeNumber tiles (i + 1) blocks

/-- The name has no zero byte, and there is one behind it. -/
def Ext2DirEntry.EndsName (entry : Ext2DirEntry) : Prop :=
  '\x00' ∉ entry.fileName ∧ entry.nameBytes[entry.nameLen.toNat]? = some '\x00'

/-- The rows that are printed for records at these offsets. -/
def Image.printedRows (image : Image) (inodeNumber : Int) (start : Nat) :
    List Nat → Memory → List DirectRow
  | [], _ => []
  | offset :: rest, dirData =>
      let dirData := image.record dirData (start + offset : Nat)
      directRows (recordEvents inodeNumber offset dirData) ++
        image.printedRows inodeNumber start rest dirData

/-- The records have inode numbers that are printed as they are, and their names end in
`dir_data`. -/
def Image.RowsFit (image : Image) (start : Nat) : List Nat → Memory → Prop
  | [], _ => True
  | offset :: rest, dirData =>
      let dirData := image.record dirData (start + offset : Nat)
      ((direntAt dirData).inode ≠ 0 →
        (direntAt dirData).inode.toNat < 2 ^ 31 ∧ (direntAt dirData).EndsName) ∧
      image.RowsFit start rest dirData

/-! ## Names -/

/-- The first zero byte of an array is at `n` if there is none ahead and one at `n`. -/
theorem untilNul_eq_some_take {chars : List Char} {n : Nat} (hn : n ≤ chars.length) :
    untilNul chars = some (chars.take n) ↔
      '\x00' ∉ chars.take n ∧ chars[n]? = some '\x00' := by
  unfold untilNul
  constructor
  · intro h
    split at h
    case isFalse => cases h
    case isTrue hmem =>
      have htake := Option.some.inj h
      have hnone : '\x00' ∉ chars.take n := by
        rw [← htake]
        intro hin
        simpa using List.mem_takeWhile_imp hin
      refine ⟨hnone, ?_⟩
      have hsplit := List.takeWhile_append_dropWhile (p := (· ≠ '\x00')) (l := chars)
      cases hdrop : chars.dropWhile (· ≠ '\x00') with
      | nil =>
          rw [hdrop, List.append_nil] at hsplit
          rw [← hsplit, htake] at hmem
          exact absurd hmem hnone
      | cons c rest =>
          have hc : c = '\x00' := by
            have hhead := List.head?_dropWhile_not (· ≠ '\x00') chars
            rw [hdrop] at hhead
            simpa using hhead
          rw [hdrop, htake, hc] at hsplit
          rw [← hsplit, List.getElem?_append_right (List.length_take_le n chars), List.length_take,
            Nat.min_eq_left hn, Nat.sub_self]
          rfl
  · intro h
    obtain ⟨hnone, hnul⟩ := h
    have hsplit : chars = chars.take n ++ '\x00' :: chars.drop (n + 1) := by
      obtain ⟨hlt, hget⟩ := List.getElem?_eq_some_iff.mp hnul
      rw [← hget, ← List.drop_eq_getElem_cons hlt, List.take_append_drop]
    have hmem : '\x00' ∈ chars := List.mem_of_getElem? hnul
    rw [if_pos hmem]
    congr 1
    conv_lhs => rw [hsplit]
    rw [List.takeWhile_append_of_pos fun c hc => by
      simpa using fun heq : c = '\x00' => hnone (heq ▸ hc)]
    simp

/-- The length of a name is at most that of the array. -/
theorem nameLen_le (entry : Ext2DirEntry) : entry.nameLen.toNat ≤ entry.name.toList.length := by
  have hlt := entry.nameLen.toNat_lt
  rw [Vector.length_toList]
  omega

/-- The name that is printed is the name of the entry. -/
theorem untilNul_name_iff (entry : Ext2DirEntry) :
    untilNul entry.nameBytes = some entry.fileName ↔ entry.EndsName := by
  have hname : entry.fileName = entry.nameBytes.take entry.nameLen.toNat :=
    (List.take_append_of_le_length (nameLen_le entry)).symm
  have hlength : entry.nameLen.toNat ≤ entry.nameBytes.length := by
    unfold Ext2DirEntry.nameBytes
    rw [List.length_append]
    exact Nat.le_add_right_of_le (nameLen_le entry)
  unfold Ext2DirEntry.EndsName
  rw [hname]
  exact untilNul_eq_some_take hlength

/-! ## The entry in `dir_data` -/

variable {image : Image} {blockSize start offset fuel : Nat} {inodeNumber : Int} {block : UInt32}
  {dirData : Memory} {offsets : List Nat}

/-- The bytes of a record that the image has are in `dir_data`. -/
theorem record_apply {position j : Nat} (hj : j < dirEntrySize)
    (hsize : position + j < image.size) :
    image.record dirData (position : Nat) j = image.byte (position + j) := by
  unfold Image.record Image.fill
  rw [Int.toNat_natCast, if_pos ⟨hj, hsize⟩]

theorem u32At_congr {bytes bytes' : Memory} {position : Nat}
    (h : ∀ j < 4, bytes (position + j) = bytes' (position + j)) :
    u32At bytes position = u32At bytes' position := by
  have hzero := h 0 (by decide)
  rw [Nat.add_zero] at hzero
  simp only [u32At, u16At, Nat.add_assoc, hzero, h 1 (by decide), h 2 (by decide),
    show 2 + 1 = 3 from rfl, h 3 (by decide)]

theorem u16At_congr {bytes bytes' : Memory} {position : Nat}
    (h : ∀ j < 2, bytes (position + j) = bytes' (position + j)) :
    u16At bytes position = u16At bytes' position := by
  have hzero := h 0 (by decide)
  rw [Nat.add_zero] at hzero
  simp only [u16At, hzero, h 1 (by decide)]

/-- A record inside the image is read as it is there, up to the end of its name. -/
theorem entry_of_record (dirData : Memory) {position : Nat}
    (hsize : position + 8 + (image.entryAt position).nameLen.toNat ≤ image.size) :
    (direntAt (image.record dirData (position : Nat))).inode = (image.entryAt position).inode ∧
      (direntAt (image.record dirData (position : Nat))).recLen = (image.entryAt position).recLen ∧
      (direntAt (image.record dirData (position : Nat))).nameLen =
        (image.entryAt position).nameLen ∧
      (direntAt (image.record dirData (position : Nat))).fileName =
        (image.entryAt position).fileName := by
  have hbytes : ∀ j < 8, image.record dirData (position : Nat) j = image.byte (position + j) := by
    intro j hj
    exact record_apply (Nat.lt_trans hj (by decide)) (by omega)
  have hnameLen : image.record dirData (position : Nat) 6 = image.byte (position + 6) :=
    hbytes 6 (by decide)
  refine ⟨?_, ?_, hnameLen, ?_⟩
  · refine u32At_congr fun j hj => ?_
    rw [Nat.zero_add]
    exact hbytes j (by omega)
  · show u16At (image.record dirData (position : Nat)) 4 =
      u16At (fun j => image.byte (position + j)) 4
    refine u16At_congr fun j hj => ?_
    exact hbytes (4 + j) (by omega)
  · -- the name has at most 255 bytes, so all of it was read
    have hlt := (image.entryAt position).nameLen.toNat_lt
    show List.take (image.record dirData (position : Nat) 6).toNat _ = _
    rw [hnameLen]
    refine List.ext_getElem (by simp [Ext2DirEntry.fileName, direntAt, Image.entryAt]) ?_
    intro j hj hj'
    have hjname : j < (image.entryAt position).nameLen.toNat := by
      rw [List.length_take] at hj
      exact Nat.lt_of_lt_of_le hj (Nat.min_le_left _ _)
    have hbyte : image.record dirData (position : Nat) (8 + j) = image.byte (position + (8 + j)) :=
      record_apply (by unfold dirEntrySize; omega) (by omega)
    simp [Ext2DirEntry.fileName, direntAt, Image.entryAt, hbyte]

theorem byteChar_eq_nul_iff (byte : UInt8) : byteChar byte = '\x00' ↔ byte = 0 := by
  have hlt := byte.toNat_lt
  have hvalid : byte.toNat.isValidChar := .inl (by omega)
  have hval : (byteChar byte).toNat = byte.toNat := by
    unfold byteChar Char.ofNat
    rw [dif_pos hvalid]
    rfl
  rw [← UInt8.toNat_inj, ← hval, ← Char.toNat_inj]
  rfl

theorem nameBytes_direntAt (bytes : Memory) :
    (direntAt bytes).nameBytes = List.ofFn fun j : Fin 256 => byteChar (bytes (8 + j)) := by
  have hlast := List.ofFn_succ_last (f := fun j : Fin (255 + 1) => byteChar (bytes (8 + j)))
  simp only [Fin.val_castSucc, Fin.val_last] at hlast
  rw [hlast]
  exact congrArg (· ++ [byteChar (bytes 263)]) Vector.toList_ofFn

/-- Which bytes of a structure make its name end. -/
theorem endsName_direntAt_iff (bytes : Memory) :
    (direntAt bytes).EndsName ↔
      (∀ j < (bytes 6).toNat, bytes (8 + j) ≠ 0) ∧ bytes (8 + (bytes 6).toNat) = 0 := by
  have hlt := (bytes 6).toNat_lt
  have hname : (direntAt bytes).name.toList =
      List.ofFn fun j : Fin 255 => byteChar (bytes (8 + j)) := Vector.toList_ofFn
  have hnone : '\x00' ∉ (direntAt bytes).fileName ↔ ∀ j < (bytes 6).toNat, bytes (8 + j) ≠ 0 := by
    show '\x00' ∉ (direntAt bytes).name.toList.take (bytes 6).toNat ↔ _
    rw [hname, List.mem_take_iff_getElem]
    simp only [List.getElem_ofFn, byteChar_eq_nul_iff, List.length_ofFn, not_exists]
    exact ⟨fun h j hj => h j (by omega), fun h j hj => h j (by omega)⟩
  have hnul : (direntAt bytes).nameBytes[(bytes 6).toNat]? = some '\x00' ↔
      bytes (8 + (bytes 6).toNat) = 0 := by
    rw [nameBytes_direntAt, List.getElem?_eq_some_iff]
    simp only [List.getElem_ofFn, byteChar_eq_nul_iff, List.length_ofFn, exists_prop]
    exact and_iff_right hlt
  exact and_congr hnone hnul

/-! ## The loop -/

/-- Two's complement. -/
theorem asInt_eq (word : UInt32) :
    asInt word = if word.toNat < 2 ^ 31 then (word.toNat : Int) else word.toNat - 2 ^ 32 := by
  unfold asInt
  rw [BitVec.toInt_eq_toNat_cond, UInt32.toNat_toBitVec]
  split <;> split <;> omega

theorem asInt_eq_toNat_iff (word : UInt32) : asInt word = word.toNat ↔ word.toNat < 2 ^ 31 := by
  rw [asInt_eq]
  split <;> omega

/-- The offset of a block is right if it is an `int`. -/
theorem indirect_offset_of_lt (h : block.toNat * blockSize < 2 ^ 31) :
    (Access.indirect block).offset blockSize = some ((block.toNat * blockSize : Nat) : Int) := by
  show intResult (asInt block * blockSize) = _
  rw [intResult_eq_some, asInt_eq]
  split
  case isTrue => omega
  case isFalse hlarge =>
    -- only with blocks of size 0 can such a number have a small offset
    have hzero : blockSize = 0 := by
      by_contra hne
      have := Nat.le_mul_of_pos_right block.toNat (Nat.pos_of_ne_zero hne)
      omega
    simp [hzero]

/-- The offset of a record is right if it is an `int`. -/
theorem directory_offset_of_lt (h : block.toNat * blockSize + offset < 2 ^ 31) :
    (Access.directory block offset).offset blockSize =
      some ((block.toNat * blockSize + offset : Nat) : Int) := by
  have hstart := indirect_offset_of_lt (Nat.lt_of_le_of_lt (Nat.le_add_right _ offset) h)
  refine Option.bind_eq_some_iff.mpr ⟨_, hstart, intResult_eq_some.mpr ?_⟩
  omega

/-- Inside the block, an offset that is not negative is right. -/
theorem lt_of_directory_offset {n : Int} (hlt : offset < blockSize)
    (h : (Access.directory block offset).offset blockSize = some n) (hnonneg : 0 ≤ n) :
    block.toNat * blockSize + offset < 2 ^ 31 ∧ n = (block.toNat * blockSize + offset : Nat) := by
  obtain ⟨begin', hbegin, hn⟩ := Option.bind_eq_some_iff.mp h
  rw [intResult_eq_some] at hbegin hn
  obtain ⟨rfl, -⟩ := hbegin
  obtain ⟨rfl, -, hrange⟩ := hn
  rw [asInt_eq] at hnonneg hrange ⊢
  split at hnonneg
  case isTrue hsmall =>
    rw [if_pos hsmall] at hrange ⊢
    omega
  case isFalse hlarge =>
    -- a negative block number leads to an offset ahead of the image
    have hblock : ((block.toNat : Int) - 2 ^ 32) * blockSize ≤ -1 * blockSize := by
      have := block.toNat_lt
      exact Int.mul_le_mul_of_nonneg_right (by omega) (Int.natCast_nonneg _)
    omega

theorem directRows_access (a : Access) (events : List Event) :
    directRows (.access a :: events) = directRows events := rfl

theorem directRows_append (events events' : List Event) :
    directRows (events ++ events') = directRows events ++ directRows events' :=
  List.filterMap_append

/-- If the loop is left, it has printed its rows, and no offset was out of range. -/
theorem printed_of_ok (h : Tiled image (block.toNat * blockSize) blockSize offset offsets)
    {after : Nat × Memory}
    (hrun : (scanRecords image blockSize inodeNumber block fuel offset dirData).result =
      .ok after) :
    (∀ o ∈ offsets, block.toNat * blockSize + o < 2 ^ 31) ∧
      directRows (scanRecords image blockSize inodeNumber block fuel offset dirData).events =
        image.printedRows inodeNumber (block.toNat * blockSize) offsets dirData := by
  -- by induction on the records that are left
  induction h generalizing fuel dirData with
  | done =>
      cases fuel with
      | zero => cases hrun
      | succ fuel =>
          rw [scanRecords_end (Nat.le_refl _)]
          exact ⟨by simp, rfl⟩
  | @record offset rest hlt hsize hlength htiled ih =>
      cases fuel with
      | zero => cases hrun
      | succ fuel =>
          obtain ⟨n, hoffset, hnonneg⟩ := offset_of_ok hlt hrun
          obtain ⟨hrange, rfl⟩ := lt_of_directory_offset hlt hoffset hnonneg
          obtain ⟨-, hrecLen, -, -⟩ := entry_of_record dirData hsize
          rw [scanRecords_step hlt hoffset hnonneg] at hrun ⊢
          simp only [hrecLen] at hrun ⊢
          obtain ⟨hranges, hrows⟩ := ih hrun
          refine ⟨List.forall_mem_cons.mpr ⟨hrange, hranges⟩, ?_⟩
          rw [directRows_access, directRows_append, hrows]
          rfl

/-- Without an offset out of range, the loop is left. -/
theorem exists_ok (inodeNumber : Int) (dirData : Memory)
    (h : Tiled image (block.toNat * blockSize) blockSize offset offsets)
    (hrange : ∀ o ∈ offsets, block.toNat * blockSize + o < 2 ^ 31)
    (hfuel : offsets.length < fuel) :
    ∃ after, (scanRecords image blockSize inodeNumber block fuel offset dirData).result =
      .ok after := by
  induction h generalizing fuel dirData with
  | done =>
      obtain ⟨fuel, rfl⟩ := Nat.exists_eq_add_one_of_ne_zero (Nat.ne_zero_of_lt hfuel)
      rw [scanRecords_end (Nat.le_refl _)]
      exact ⟨_, rfl⟩
  | @record offset rest hlt hsize hlength htiled ih =>
      obtain ⟨fuel, rfl⟩ := Nat.exists_eq_add_one_of_ne_zero (Nat.ne_zero_of_lt hfuel)
      rw [List.length_cons] at hfuel
      rw [List.forall_mem_cons] at hrange
      obtain ⟨-, hrecLen, -, -⟩ := entry_of_record dirData hsize
      rw [scanRecords_step hlt (directory_offset_of_lt hrange.1) (Int.natCast_nonneg _)]
      simp only [hrecLen]
      exact ih _ hrange.2 (by omega)

/-! ## Right rows -/

/-- The row of a record is right if its place in the block is its place in the file, its number is
an `int` and its name ends. -/
theorem entryRow_eq_iff {logicalStart start : Nat}
    (hsize : start + offset + 8 + (image.entryAt (start + offset)).nameLen.toNat ≤ image.size) :
    entryRow inodeNumber offset (direntAt (image.record dirData (start + offset : Nat))) =
        image.rightRow inodeNumber logicalStart start offset ↔
      logicalStart = 0 ∧
        (direntAt (image.record dirData (start + offset : Nat))).inode.toNat < 2 ^ 31 ∧
        (direntAt (image.record dirData (start + offset : Nat))).EndsName := by
  obtain ⟨hinode, hrecLen, hnameLen, hname⟩ := entry_of_record dirData hsize
  rw [← untilNul_name_iff]
  unfold entryRow Image.rightRow
  simp only [DirectRow.mk.injEq, hname, hrecLen, hnameLen, hinode, true_and]
  have hlogical : (offset : Int) = ((logicalStart + offset : Nat) : Int) ↔ logicalStart = 0 := by
    omega
  rw [hlogical, asInt_eq_toNat_iff]

/-- The rows of a record and of the ones behind it. -/
theorem printedRows_cons {start : Nat} (inodeNumber : Int) (dirData : Memory) (rest : List Nat)
    (hsize : start + offset + 8 + (image.entryAt (start + offset)).nameLen.toNat ≤ image.size) :
    image.printedRows inodeNumber start (offset :: rest) dirData =
      (if (image.entryAt (start + offset)).inode ≠ 0 then
        [entryRow inodeNumber offset (direntAt (image.record dirData (start + offset : Nat)))]
      else []) ++ image.printedRows inodeNumber start rest
        (image.record dirData (start + offset : Nat)) := by
  obtain ⟨hinode, -, -, -⟩ := entry_of_record dirData hsize
  rw [Image.printedRows, recordEvents, hinode]
  split <;> rfl

theorem rightRows_cons (logicalStart start offset : Nat) (rest : List Nat) :
    image.rightRows inodeNumber logicalStart start (offset :: rest) =
      (if (image.entryAt (start + offset)).inode ≠ 0 then
        [image.rightRow inodeNumber logicalStart start offset]
      else []) ++ image.rightRows inodeNumber logicalStart start rest := by
  unfold Image.rightRows
  rw [List.filter_cons]
  split <;> simp_all

/-- As many rows are printed as the records of the block should have. -/
theorem length_printedRows (inodeNumber : Int) (dirData : Memory) (logicalStart : Nat)
    (h : Tiled image start blockSize offset offsets) :
    (image.printedRows inodeNumber start offsets dirData).length =
      (image.rightRows inodeNumber logicalStart start offsets).length := by
  induction h generalizing dirData with
  | done => rfl
  | @record offset rest hlt hsize hlength htiled ih =>
      rw [printedRows_cons inodeNumber dirData rest hsize, rightRows_cons, List.length_append,
        List.length_append, ih]
      split <;> rfl

/-- The rows of a block are right if all of these are; a block without entries has no rows. -/
theorem printedRows_eq_iff {logicalStart : Nat} (h : Tiled image start blockSize offset offsets) :
    image.printedRows inodeNumber start offsets dirData =
        image.rightRows inodeNumber logicalStart start offsets ↔
      (∀ o ∈ offsets, (image.entryAt (start + o)).inode ≠ 0 → logicalStart = 0) ∧
        image.RowsFit start offsets dirData := by
  induction h generalizing dirData with
  | done => exact iff_of_true rfl ⟨by simp, trivial⟩
  | @record offset rest hlt hsize hlength htiled ih =>
      obtain ⟨hinode, -, -, -⟩ := entry_of_record dirData hsize
      have hrow : entryRow inodeNumber offset
            (direntAt (image.record dirData (start + offset : Nat))) =
          image.rightRow inodeNumber logicalStart start offset ↔ _ := entryRow_eq_iff hsize
      have hrest : image.printedRows inodeNumber start rest
            (image.record dirData (start + offset : Nat)) =
          image.rightRows inodeNumber logicalStart start rest ↔ _ := ih
      rw [printedRows_cons inodeNumber dirData rest hsize, rightRows_cons, Image.RowsFit,
        List.forall_mem_cons]
      simp only [hinode] at hrow ⊢
      by_cases hzero : (image.entryAt (start + offset)).inode ≠ 0
      · rw [if_pos hzero, if_pos hzero, List.singleton_append, List.singleton_append,
          List.cons.injEq, hrow, hrest]
        constructor
        · intro hrows
          obtain ⟨⟨hstart, hfit⟩, hentries, hothers⟩ := hrows
          exact ⟨⟨fun _ => hstart, hentries⟩, fun _ => hfit, hothers⟩
        · intro hrows
          obtain ⟨⟨hstart, hentries⟩, hfit, hothers⟩ := hrows
          exact ⟨⟨hstart hzero, hfit hzero⟩, hentries, hothers⟩
      · rw [if_neg hzero, if_neg hzero, List.nil_append, List.nil_append, hrest]
        exact ⟨fun hrows => ⟨⟨fun hne => absurd hne hzero, hrows.1⟩,
          fun hne => absurd hne hzero, hrows.2⟩, fun hrows => ⟨hrows.1.2, hrows.2.2⟩⟩

theorem rowsFit_of_inode_eq_zero (h : Tiled image start blockSize offset offsets)
    (hzero : ∀ o ∈ offsets, (image.entryAt (start + o)).inode = 0) :
    image.RowsFit start offsets dirData := by
  induction h generalizing dirData with
  | done => trivial
  | @record offset rest hlt hsize hlength htiled ih =>
      obtain ⟨hinode, -, -, -⟩ := entry_of_record dirData hsize
      rw [List.forall_mem_cons] at hzero
      refine ⟨fun hne => absurd ?_ hne, ih hzero.2⟩
      rw [hinode, hzero.1]

/-! ## The blocks -/

variable {tiles : Nat → List Nat}

theorem blockRows_zeros {zeros : List UInt32} (h : ∀ zero ∈ zeros, zero = 0) (i : Nat)
    (blocks : List UInt32) :
    image.blockRows blockSize inodeNumber tiles i (zeros ++ blocks) =
      image.blockRows blockSize inodeNumber tiles (i + zeros.length) blocks := by
  induction zeros generalizing i with
  | nil => rfl
  | cons zero zeros ih =>
      rw [List.forall_mem_cons] at h
      rw [List.cons_append, Image.blockRows, if_neg (not_not_intro h.1), List.nil_append, ih h.2,
        List.length_cons, Nat.add_assoc, Nat.add_comm 1]

/-- Blocks have no rows if no record in them has an inode. -/
theorem blockRows_eq_nil_iff (i : Nat) (blocks : List UInt32) :
    image.blockRows blockSize inodeNumber tiles i blocks = [] ↔
      ∀ j block, blocks[j]? = some block → block ≠ 0 → ∀ o ∈ tiles (i + j),
        (image.entryAt (block.toNat * blockSize + o)).inode = 0 := by
  induction blocks generalizing i with
  | nil => exact iff_of_true rfl (by simp)
  | cons first blocks ih =>
      have hfirst : (if first ≠ 0 then
            image.rightRows inodeNumber (i * blockSize) (first.toNat * blockSize) (tiles i)
          else []) = [] ↔
          (first ≠ 0 → ∀ o ∈ tiles i,
            (image.entryAt (first.toNat * blockSize + o)).inode = 0) := by
        split
        case isTrue hne =>
          simp only [Image.rightRows, List.map_eq_nil_iff, List.filter_eq_nil_iff,
            decide_eq_true_eq, not_not]
          exact ⟨fun hall _ => hall, fun hall => hall hne⟩
        case isFalse hzero => exact iff_of_true rfl fun hne => absurd hne hzero
      rw [Image.blockRows, List.append_eq_nil_iff, hfirst, ih]
      constructor
      · intro h j block hblock
        cases j with
        | zero =>
            obtain rfl : first = block := Option.some.inj hblock
            exact h.1
        | succ j =>
            have hrest := h.2 j block hblock
            rwa [Nat.add_assoc, Nat.add_comm 1] at hrest
      · intro h
        refine ⟨h 0 first rfl, fun j block hblock => ?_⟩
        have hrest := h (j + 1) block hblock
        rwa [← Nat.add_assoc, Nat.add_right_comm] at hrest

/-- One row for every record with an inode is printed, with the data of the record and its place in
the file, and no other row of a directory entry. -/
def Listed (image : Image) (blockSize : Nat) (inodeNumber : Int) (inode : Ext2Inode)
    (dirData : Memory) (tiles : Nat → List Nat) : Prop :=
  ∃ fuel, (directoryEntries image blockSize inodeNumber fuel inode dirData).result = .ok () ∧
    directRows (directoryEntries image blockSize inodeNumber fuel inode dirData).events =
      image.blockRows blockSize inodeNumber tiles 0 inode.directBlocks

/-- Only the first direct block has records with an inode, the offsets of the first block that is
not zero are in range, and the numbers and the names of the entries are printed as they are. -/
structure PrintsWell (image : Image) (blockSize : Nat) (inode : Ext2Inode) (dirData : Memory)
    (tiles : Nat → List Nat) : Prop where
  entries_first : ∀ i block, inode.directBlocks[i]? = some block → block ≠ 0 → ∀ o ∈ tiles i,
    (image.entryAt (block.toNat * blockSize + o)).inode ≠ 0 → i = 0
  offsets_fit : ∀ i block, inode.directBlocks[i]? = some block → block ≠ 0 →
    (∀ j < i, inode.directBlocks[j]? = some 0) → ∀ o ∈ tiles i,
    block.toNat * blockSize + o < 2 ^ 31
  rows_fit : ∀ block, inode.directBlocks[0]? = some block → block ≠ 0 →
    image.RowsFit (block.toNat * blockSize) (tiles 0) dirData

/-- The blocks of the directory are tiled by records. -/
def TiledBlocks (image : Image) (blockSize : Nat) (inode : Ext2Inode) (tiles : Nat → List Nat) :
    Prop :=
  ∀ i block, inode.directBlocks[i]? = some block → block ≠ 0 →
    Tiled image (block.toNat * blockSize) blockSize 0 (tiles i)

/-- The rows of a directory are the rows of its first block. -/
theorem listed_iff_of_first {inode : Ext2Inode} {zeros rest : List UInt32}
    (hsplit : inode.directBlocks = zeros ++ block :: rest) (hzeros : ∀ zero ∈ zeros, zero = 0)
    (hne : block ≠ 0)
    (htiled : Tiled image (block.toNat * blockSize) blockSize 0 (tiles zeros.length)) :
    Listed image blockSize inodeNumber inode dirData tiles ↔
      (∀ o ∈ tiles zeros.length, block.toNat * blockSize + o < 2 ^ 31) ∧
      image.printedRows inodeNumber (block.toNat * blockSize) (tiles zeros.length) dirData =
        image.rightRows inodeNumber (zeros.length * blockSize) (block.toNat * blockSize)
          (tiles zeros.length) ∧
      image.blockRows blockSize inodeNumber tiles (zeros.length + 1) rest = [] := by
  have hrows : image.blockRows blockSize inodeNumber tiles 0 inode.directBlocks =
      image.rightRows inodeNumber (zeros.length * blockSize) (block.toNat * blockSize)
          (tiles zeros.length) ++
        image.blockRows blockSize inodeNumber tiles (zeros.length + 1) rest := by
    rw [hsplit, blockRows_zeros hzeros, Image.blockRows, if_pos hne, Nat.zero_add]
  have hscan : ∀ fuel, directoryEntries image blockSize inodeNumber fuel inode dirData =
      ⟨(scanRecords image blockSize inodeNumber block fuel 0 dirData).events,
        (scanRecords image blockSize inodeNumber block fuel 0 dirData).result.map fun _ => ()⟩ := by
    intro fuel
    rw [directoryEntries, hsplit, scanBlocks_zeros hzeros, scanBlocks_cons hne]
  have hlength := length_printedRows inodeNumber dirData (zeros.length * blockSize) htiled
  unfold Listed
  rw [hrows]
  constructor
  · intro h
    obtain ⟨fuel, hok, hprinted⟩ := h
    rw [hscan fuel] at hok hprinted
    cases hrun : (scanRecords image blockSize inodeNumber block fuel 0 dirData).result with
    | error stop =>
        rw [hrun] at hok
        cases hok
    | ok after =>
        obtain ⟨hrange, hevents⟩ := printed_of_ok htiled hrun
        rw [hevents] at hprinted
        -- there are no rows left for the other blocks
        have hnil : image.blockRows blockSize inodeNumber tiles (zeros.length + 1) rest = [] := by
          have hlengths := congrArg List.length hprinted
          rw [List.length_append] at hlengths
          exact List.length_eq_zero_iff.mp (by omega)
        rw [hnil, List.append_nil] at hprinted
        exact ⟨hrange, hprinted, hnil⟩
  · intro h
    obtain ⟨hrange, hprinted, hnil⟩ := h
    obtain ⟨after, hrun⟩ := exists_ok inodeNumber dirData htiled hrange (Nat.lt_succ_self _)
    refine ⟨(tiles zeros.length).length + 1, ?_, ?_⟩
    · rw [hscan, hrun]
      rfl
    · rw [hscan, (printed_of_ok htiled hrun).2, hprinted, hnil, List.append_nil]

/-- The places of the first block and of those behind it. -/
theorem getElem?_append_first (zeros rest : List UInt32) :
    (zeros ++ block :: rest)[zeros.length]? = some block := by
  rw [List.getElem?_append_right (Nat.le_refl _), Nat.sub_self]
  rfl

theorem getElem?_append_behind (zeros rest : List UInt32) (j : Nat) :
    (zeros ++ block :: rest)[zeros.length + 1 + j]? = rest[j]? := by
  rw [List.getElem?_append_right (by omega), Nat.add_assoc, Nat.add_sub_cancel_left,
    Nat.add_comm 1]
  rfl

/-- Which blocks of a split list are zero. -/
theorem getElem?_first {zeros rest : List UInt32} (hzeros : ∀ zero ∈ zeros, zero = 0)
    {i : Nat} {other : UInt32} (h : (zeros ++ block :: rest)[i]? = some other) (hne : other ≠ 0) :
    i = zeros.length ∧ other = block ∨ ∃ j, i = zeros.length + 1 + j ∧ rest[j]? = some other := by
  rcases Nat.lt_trichotomy i zeros.length with hlt | rfl | hgt
  · rw [List.getElem?_append_left hlt] at h
    exact absurd (hzeros other (List.mem_of_getElem? h)) hne
  · rw [getElem?_append_first] at h
    exact .inl ⟨rfl, (Option.some.inj h).symm⟩
  · obtain ⟨j, rfl⟩ := Nat.exists_eq_add_of_le (Nat.succ_le_of_lt hgt)
    rw [getElem?_append_behind] at h
    exact .inr ⟨j, rfl, h⟩

/-- The conditions on the blocks in terms of the first one that is not zero. -/
theorem printsWell_iff_of_first {inode : Ext2Inode} {zeros rest : List UInt32}
    (hpos : 0 < blockSize) (hsplit : inode.directBlocks = zeros ++ block :: rest)
    (hzeros : ∀ zero ∈ zeros, zero = 0) (hne : block ≠ 0)
    (htiled : Tiled image (block.toNat * blockSize) blockSize 0 (tiles zeros.length)) :
    PrintsWell image blockSize inode dirData tiles ↔
      (∀ o ∈ tiles zeros.length, block.toNat * blockSize + o < 2 ^ 31) ∧
      ((∀ o ∈ tiles zeros.length, (image.entryAt (block.toNat * blockSize + o)).inode ≠ 0 →
          zeros.length * blockSize = 0) ∧
        image.RowsFit (block.toNat * blockSize) (tiles zeros.length) dirData) ∧
      ∀ j other, rest[j]? = some other → other ≠ 0 → ∀ o ∈ tiles (zeros.length + 1 + j),
        (image.entryAt (other.toNat * blockSize + o)).inode = 0 := by
  have hfirst : inode.directBlocks[zeros.length]? = some block := by
    rw [hsplit, getElem?_append_first]
  have hstart : zeros.length * blockSize = 0 ↔ zeros.length = 0 := by
    rw [Nat.mul_eq_zero]
    omega
  rw [hstart]
  constructor
  · intro h
    refine ⟨?_, ⟨?_, ?_⟩, ?_⟩
    · refine h.offsets_fit zeros.length block hfirst hne fun j hj => ?_
      rw [hsplit, List.getElem?_append_left hj, List.getElem?_eq_getElem hj,
        hzeros _ (List.getElem_mem hj)]
    · exact h.entries_first zeros.length block hfirst hne
    · -- behind zeros the records of the first block have no rows, right or wrong
      by_cases hlength : zeros.length = 0
      · rw [hlength] at hfirst ⊢
        exact h.rows_fit block hfirst hne
      · refine rowsFit_of_inode_eq_zero htiled fun o ho => ?_
        by_contra hinode
        exact hlength (h.entries_first zeros.length block hfirst hne o ho hinode)
    · intro j other hother hne' o ho
      by_contra hinode
      have hget : inode.directBlocks[zeros.length + 1 + j]? = some other := by
        rw [hsplit, getElem?_append_behind]
        exact hother
      have := h.entries_first _ other hget hne' o ho hinode
      omega
  · intro h
    obtain ⟨hrange, ⟨hentries, hfit⟩, hrest⟩ := h
    refine ⟨?_, ?_, ?_⟩
    · intro i other hother hne' o ho hinode
      rw [hsplit] at hother
      rcases getElem?_first hzeros hother hne' with ⟨rfl, rfl⟩ | ⟨j, rfl, hget⟩
      · exact hentries o ho hinode
      · exact absurd (hrest j other hget hne' o ho) hinode
    · intro i other hother hne' hbefore
      rw [hsplit] at hother
      rcases getElem?_first hzeros hother hne' with ⟨rfl, rfl⟩ | ⟨j, rfl, -⟩
      · exact hrange
      · have hzero := hbefore zeros.length (by omega)
        rw [hfirst] at hzero
        exact absurd (Option.some.inj hzero) hne
    · intro other hother hne'
      rw [hsplit] at hother
      rcases getElem?_first hzeros hother hne' with ⟨hlength, rfl⟩ | ⟨j, hindex, -⟩
      · rw [hlength]
        exact hfit
      · omega

/-- A directory whose blocks are tiled by records is listed exactly if its entries are all in its
first block, no offset is out of range, and the entries can be printed as they are. -/
theorem listed_iff (image : Image) (inodeNumber : Int) (inode : Ext2Inode) (dirData : Memory)
    (hpos : 0 < blockSize) (htiled : TiledBlocks image blockSize inode tiles) :
    Listed image blockSize inodeNumber inode dirData tiles ↔
      PrintsWell image blockSize inode dirData tiles := by
  rcases exists_first_block inode.directBlocks with hall | ⟨zeros, block, rest, hsplit, hzeros, hne⟩
  · -- without a block nothing is read, and there are no rows to be printed
    have hnone : ∀ (i : Nat) (block : UInt32), inode.directBlocks[i]? = some block → block ≠ 0 →
        False := fun i block hblock hne => hne (hall block (List.mem_of_getElem? hblock))
    have hscan : directoryEntries image blockSize inodeNumber 0 inode dirData = pure () := by
      rw [directoryEntries, ← List.append_nil inode.directBlocks, scanBlocks_zeros hall]
      rfl
    have hrows : image.blockRows blockSize inodeNumber tiles 0 inode.directBlocks = [] := by
      rw [blockRows_eq_nil_iff]
      exact fun j block hblock hne => (hnone j block hblock hne).elim
    refine iff_of_true ⟨0, ?_, ?_⟩ ⟨?_, ?_, ?_⟩
    · rw [hscan]
      rfl
    · rw [hscan, hrows]
      rfl
    · exact fun i block hblock hne => (hnone i block hblock hne).elim
    · exact fun i block hblock hne => (hnone i block hblock hne).elim
    · exact fun block hblock hne => (hnone 0 block hblock hne).elim
  · have hfirst : inode.directBlocks[zeros.length]? = some block := by
      rw [hsplit, getElem?_append_first]
    have htiled' := htiled zeros.length block hfirst hne
    rw [listed_iff_of_first hsplit hzeros hne htiled', printedRows_eq_iff htiled',
      blockRows_eq_nil_iff, printsWell_iff_of_first hpos hsplit hzeros hne htiled']

/-- An image in which every block of 1024 bytes is one record, with the inode 2 and the name ".". -/
def recordImage : Image :=
  ⟨16384, fun position =>
    if position % 1024 = 0 then 2
    else if position % 1024 = 5 then 4
    else if position % 1024 = 6 then 1
    else if position % 1024 = 8 then 46
    else 0⟩

/-- The blocks 8 and 9 are tiled by their records. -/
theorem recordImage_tiled {block : Nat} (h : block = 8 ∨ block = 9) :
    Tiled recordImage (block * 1024) 1024 0 [0] := by
  have hlength : (recordImage.entryAt (block * 1024 + 0)).recLen.toNat = 1024 := by
    rcases h with rfl | rfl <;> decide
  have hsize : block * 1024 + 0 + 8 +
      (recordImage.entryAt (block * 1024 + 0)).nameLen.toNat ≤ recordImage.size := by
    rcases h with rfl | rfl <;> decide
  refine .record (by decide) hsize ?_ ?_
  · rw [hlength]
    decide
  · rw [hlength]
    exact .done

/-- The record in block 8 is listed. -/
theorem block_eight_listed : TiledBlocks recordImage 1024 (directoryOf 8 0) (fun _ => [0]) ∧
    Listed recordImage 1024 2 (directoryOf 8 0) (fun _ => 0) fun _ => [0] := by
  have hblocks : (directoryOf 8 0).directBlocks = [] ++ 8 :: List.replicate 11 0 :=
    directBlocks_directoryOf 8 0
  have hfirst : ∀ (i : Nat) (block : UInt32), (directoryOf 8 0).directBlocks[i]? = some block →
      block ≠ 0 → i = 0 ∧ block = 8 := by
    intro i block hblock hne
    rw [hblocks] at hblock
    rcases getElem?_first (by simp) hblock hne with ⟨hi, hb⟩ | ⟨j, -, hzero⟩
    · exact ⟨hi, hb⟩
    · exact absurd (List.eq_of_mem_replicate (List.mem_of_getElem? hzero)) hne
  have htiled : TiledBlocks recordImage 1024 (directoryOf 8 0) (fun _ => [0]) := by
    intro i block hblock hne
    obtain ⟨-, rfl⟩ := hfirst i block hblock hne
    exact recordImage_tiled (.inl rfl)
  have hname : (direntAt (recordImage.record (fun _ => 0) 8192)).EndsName := by
    rw [endsName_direntAt_iff]
    decide
  refine ⟨htiled, (listed_iff recordImage 2 (directoryOf 8 0) (fun _ => 0) (by decide) htiled).mpr
    ⟨?_, ?_, ?_⟩⟩
  · exact fun i block hblock hne o ho hinode => (hfirst i block hblock hne).1
  · intro i block hblock hne hbefore o ho
    obtain ⟨-, rfl⟩ := hfirst i block hblock hne
    obtain rfl := List.mem_singleton.mp ho
    decide
  · intro block hblock hne
    obtain ⟨-, rfl⟩ := hfirst 0 block hblock hne
    exact ⟨fun _ => ⟨by decide, hname⟩, trivial⟩

/-- The record in block 9 is not. -/
theorem block_nine_not_listed : TiledBlocks recordImage 1024 (directoryOf 8 9) (fun _ => [0]) ∧
    ¬ Listed recordImage 1024 2 (directoryOf 8 9) (fun _ => 0) fun _ => [0] := by
  have hblocks : (directoryOf 8 9).directBlocks = [8, 9] ++ List.replicate 10 0 :=
    directBlocks_directoryOf 8 9
  have htiled : TiledBlocks recordImage 1024 (directoryOf 8 9) (fun _ => [0]) := by
    intro i block hblock hne
    have hmem := List.mem_of_getElem? hblock
    rw [hblocks, List.mem_append] at hmem
    rcases hmem with hmem | hzero
    · rcases List.mem_pair.mp hmem with rfl | rfl
      · exact recordImage_tiled (.inl rfl)
      · exact recordImage_tiled (.inr rfl)
    · exact absurd (List.eq_of_mem_replicate hzero) hne
  refine ⟨htiled, fun hlisted => ?_⟩
  have hsplit : (directoryOf 8 9).directBlocks = [] ++ 8 :: 9 :: List.replicate 10 0 :=
    directBlocks_directoryOf 8 9
  rw [listed_iff_of_first hsplit (by simp) (by decide) (htiled 0 8 rfl (by decide)),
    blockRows_eq_nil_iff] at hlisted
  have hzero := hlisted.2.2 0 9 rfl (by decide) 0 (by decide)
  exact absurd hzero (by decide)

end Coursework.FileSystem
