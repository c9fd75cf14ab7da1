import Coursework.FileSystem.Tiling

/-!
# Indirect blocks

`print_ind_blks` of `lab3a.c`, which prints the pointers in an indirect block and calls itself for
the blocks that these point to. It reads `sizeof(BLOCK_SIZE)` bytes of a block, that is one pointer,
and takes the other pointers from its array as it is on the stack. `not_printsTree` says that the
rows do not come from the image, whatever it is.
Vocabulary and scope: `Coursework.FileSystem.Image`.
-/

namespace Coursework.FileSystem

open Numbers Python Stdio

/-- `sizeof(BLOCK_SIZE)`, the size of an `int`. -/
def sizeofBlockSize : Nat := 4

/-- What a pointer on this level adds to the offset. -/
def offsetStep (lvl : Nat) : Int :=
  if lvl = 1 then 1 else if lvl = 2 then 256 else if lvl = 3 then 256 * 256 else 0

/-- The pointer with this number in `ind_blocks`. -/
def pointerAt (indBlocks : Memory) (i : Nat) : UInt32 :=
  u32At indBlocks (4 * i)

/-- The row of a pointer. -/
def pointerRow (inodeNumber : Int) (lvl : Nat) (offset : Int) (blkNmbr pointer : UInt32) :
    IndirectRow :=
  ⟨inodeNumber, lvl, offset, asInt blkNmbr, asInt pointer⟩

/-- The loop over the pointers with these numbers; `call` is the recursive call for one of them. -/
def scanPointers (inodeNumber : Int) (lvl : Nat) (blkNmbr : UInt32) (indBlocks : Memory)
    (call : Nat → UInt32 → Int → Dump Unit) : List Nat → Int → Dump Unit
  | [], _ => pure ()
  | i :: is, offset => do
      if pointerAt indBlocks i ≠ 0 then
        Trace.emit (.indirect
          (pointerRow inodeNumber lvl offset blkNmbr (pointerAt indBlocks i)))
        call i (pointerAt indBlocks i) offset
      match intResult (offset + offsetStep lvl) with
      | none => .halt .undefined
      | some offset => scanPointers inodeNumber lvl blkNmbr indBlocks call is offset

/-- `print_ind_blks`, by recursion on the levels below this one. -/
def printIndBlks (image : Image) (blockSize : Nat) (inodeNumber : Int) :
    Nat → Stack → UInt32 → Int → Dump Unit
  | 0, stack, blkNmbr, offset => do
      let indBlocks ← image.pread blockSize (.indirect blkNmbr) sizeofBlockSize (stack [])
      scanPointers inodeNumber 1 blkNmbr indBlocks (fun _ _ _ => pure ())
        (List.range (blockSize / 4)) offset
  | below + 1, stack, blkNmbr, offset => do
      let indBlocks ← image.pread blockSize (.indirect blkNmbr) sizeofBlockSize (stack [])
      scanPointers inodeNumber (below + 2) blkNmbr indBlocks
        (fun i pointer offset =>
          printIndBlks image blockSize inodeNumber below (stack.sub i) pointer offset)
        (List.range (blockSize / 4)) offset

/-- The rows that a tree of indirect blocks should have, in depth-first order. -/
def Image.treeRows (image : Image) (blockSize : Nat) (inodeNumber : Int) :
    Nat → UInt32 → Nat → List IndirectRow
  | below, blkNmbr, offset =>
      (List.range (blockSize / 4)).flatMap fun i =>
        let pointer := pointerAt (fun j => image.byte (blkNmbr.toNat * blockSize + j)) i
        let first := offset + i * (blockSize / 4) ^ below
        if pointer ≠ 0 then
          ⟨inodeNumber, below + 1, (first : Nat), blkNmbr.toNat, pointer.toNat⟩ ::
            match below with
            | 0 => []
            | below + 1 => image.treeRows blockSize inodeNumber below pointer first
        else []

/-- Whatever is on the stack, the rows are printed that the tree of blocks in the image should have,
and the recursion ends. -/
def PrintsTree (image : Image) (blockSize : Nat) (inodeNumber : Int) (below : Nat)
    (blkNmbr : UInt32) (offset : Nat) : Prop :=
  ∀ stack,
    (printIndBlks image blockSize inodeNumber below stack blkNmbr offset).result = .ok () ∧
    indirectRows (printIndBlks image blockSize inodeNumber below stack blkNmbr offset).events =
      image.treeRows blockSize inodeNumber below blkNmbr offset

/-! ## The loop over the pointers -/

variable {image : Image} {blockSize lvl below i : Nat} {inodeNumber offset : Int}
  {blkNmbr : UInt32} {indBlocks bytes : Memory} {call : Nat → UInt32 → Int → Dump Unit}
  {is : List Nat} {stack : Stack}

theorem indirectRows_append (events events' : List Event) :
    indirectRows (events ++ events') = indirectRows events ++ indirectRows events' :=
  List.filterMap_append

/-- The loop goes on with the next offset, if that is an `int`. -/
def scanFrom (inodeNumber : Int) (lvl : Nat) (blkNmbr : UInt32) (indBlocks : Memory)
    (call : Nat → UInt32 → Int → Dump Unit) (is : List Nat) (offset : Int) : Dump Unit :=
  match intResult (offset + offsetStep lvl) with
  | none => .halt .undefined
  | some offset => scanPointers inodeNumber lvl blkNmbr indBlocks call is offset

/-- What the loop does with a pointer. -/
def pointerEvents (inodeNumber : Int) (lvl : Nat) (blkNmbr : UInt32) (indBlocks : Memory)
    (call : Nat → UInt32 → Int → Dump Unit) (i : Nat) (offset : Int) : List Event :=
  if pointerAt indBlocks i ≠ 0 then
    .indirect (pointerRow inodeNumber lvl offset blkNmbr (pointerAt indBlocks i)) ::
      (call i (pointerAt indBlocks i) offset).events
  else []

theorem scanPointers_cons : scanPointers inodeNumber lvl blkNmbr indBlocks call (i :: is) offset =
    if pointerAt indBlocks i ≠ 0 then do
      Trace.emit (.indirect (pointerRow inodeNumber lvl offset blkNmbr (pointerAt indBlocks i)))
      call i (pointerAt indBlocks i) offset
      scanFrom inodeNumber lvl blkNmbr indBlocks call is offset
    else scanFrom inodeNumber lvl blkNmbr indBlocks call is offset := rfl

/-- What the loop does if it comes to its end. -/
theorem events_scanPointers_cons
    (h : (scanPointers inodeNumber lvl blkNmbr indBlocks call (i :: is) offset).result = .ok ()) :
    ∃ next, (scanPointers inodeNumber lvl blkNmbr indBlocks call is next).result = .ok () ∧
      (scanPointers inodeNumber lvl blkNmbr indBlocks call (i :: is) offset).events =
        pointerEvents inodeNumber lvl blkNmbr indBlocks call i offset ++
          (scanPointers inodeNumber lvl blkNmbr indBlocks call is next).events := by
  have hfrom : ∀ run, scanFrom inodeNumber lvl blkNmbr indBlocks call is offset = run →
      run.result = .ok () →
      ∃ next, scanPointers inodeNumber lvl blkNmbr indBlocks call is next = run := by
    intro run hrun hok
    unfold scanFrom at hrun
    split at hrun
    · rw [← hrun] at hok
      cases hok
    · exact ⟨_, hrun⟩
  rw [scanPointers_cons] at h ⊢
  unfold pointerEvents
  by_cases hpointer : pointerAt indBlocks i ≠ 0
  · rw [if_pos hpointer] at h ⊢
    rw [if_pos hpointer]
    rw [Trace.result_emit_bind, Trace.result_bind_eq_ok] at h
    obtain ⟨_, hcall, hrest⟩ := h
    obtain ⟨next, hnext⟩ := hfrom _ rfl hrest
    refine ⟨next, by rw [hnext, hrest], ?_⟩
    rw [Trace.events_emit_bind, Trace.bind_of_ok hcall, ← hnext]
    rfl
  · rw [if_neg hpointer] at h ⊢
    rw [if_neg hpointer]
    obtain ⟨next, hnext⟩ := hfrom _ rfl h
    exact ⟨next, by rw [hnext, h], by rw [hnext]; rfl⟩

/-- What the loop does comes from the pointers. -/
theorem mem_events_scanPointers {e : Event}
    (h : e ∈ (scanPointers inodeNumber lvl blkNmbr indBlocks call is offset).events) :
    ∃ i ∈ is, ∃ next, e ∈ pointerEvents inodeNumber lvl blkNmbr indBlocks call i next := by
  induction is generalizing offset with
  | nil => cases h
  | cons i is ih =>
      have hrest : e ∈ (scanFrom inodeNumber lvl blkNmbr indBlocks call is offset).events →
          ∃ i' ∈ i :: is, ∃ next,
            e ∈ pointerEvents inodeNumber lvl blkNmbr indBlocks call i' next := by
        intro hmem
        unfold scanFrom at hmem
        split at hmem
        · cases hmem
        · obtain ⟨i', hi', hnext⟩ := ih hmem
          exact ⟨i', List.mem_cons_of_mem i hi', hnext⟩
      rw [scanPointers_cons] at h
      by_cases hpointer : pointerAt indBlocks i ≠ 0
      · rw [if_pos hpointer, Trace.events_emit_bind, List.mem_cons, Trace.mem_events_bind] at h
        have hevents : pointerEvents inodeNumber lvl blkNmbr indBlocks call i offset = _ :=
          if_pos hpointer
        rcases h with hrow | hcall | ⟨-, -, hmem⟩
        · exact ⟨i, List.mem_cons_self, offset, by rw [hevents, hrow]; exact List.mem_cons_self⟩
        · exact ⟨i, List.mem_cons_self, offset, by
            rw [hevents]; exact List.mem_cons_of_mem _ hcall⟩
        · exact hrest hmem
      · rw [if_neg hpointer] at h
        exact hrest h

/-! ## The levels -/

/-- The recursive call for a pointer. -/
def callBelow (image : Image) (blockSize : Nat) (inodeNumber : Int) (stack : Stack) :
    Nat → Nat → UInt32 → Int → Dump Unit
  | 0, _, _, _ => pure ()
  | below + 1, i, pointer, offset =>
      printIndBlks image blockSize inodeNumber below (stack.sub i) pointer offset

/-- What is read of the block, and the loop over the pointers. -/
theorem printIndBlks_eq : printIndBlks image blockSize inodeNumber below stack blkNmbr offset =
    (image.pread blockSize (.indirect blkNmbr) sizeofBlockSize (stack []) >>= fun indBlocks =>
      scanPointers inodeNumber (below + 1) blkNmbr indBlocks
        (callBelow image blockSize inodeNumber stack below) (List.range (blockSize / 4))
        offset) := by
  cases below <;> rfl

/-- What a call does besides reading comes from the pointers. -/
theorem mem_pointerEvents_of_mem {row : IndirectRow} (h : .indirect row ∈
      (printIndBlks image blockSize inodeNumber below stack blkNmbr offset).events) :
    ∃ indBlocks i next, .indirect row ∈ pointerEvents inodeNumber (below + 1) blkNmbr indBlocks
      (callBelow image blockSize inodeNumber stack below) i next := by
  rw [printIndBlks_eq, Trace.mem_events_bind] at h
  rcases h with hread | ⟨indBlocks, -, hscan⟩
  · unfold Image.pread at hread
    rw [Trace.events_emit_bind, List.mem_cons] at hread
    rcases hread with hrow | hread
    · cases hrow
    · split at hread
      · cases hread
      · split at hread <;> cases hread
  · obtain ⟨i, -, next, hmem⟩ := mem_events_scanPointers hscan
    exact ⟨indBlocks, i, next, hmem⟩

/-- A block that could be read holds the pointers that were read and those from the stack. -/
theorem printIndBlks_of_ok
    (h : (printIndBlks image blockSize inodeNumber below stack blkNmbr offset).result = .ok ()) :
    ∃ start, printIndBlks image blockSize inodeNumber below stack blkNmbr offset =
      ⟨.access (.indirect blkNmbr) :: (scanPointers inodeNumber (below + 1) blkNmbr
          (image.fill (stack []) sizeofBlockSize start)
          (callBelow image blockSize inodeNumber stack below)
          (List.range (blockSize / 4)) offset).events,
        (scanPointers inodeNumber (below + 1) blkNmbr
          (image.fill (stack []) sizeofBlockSize start)
          (callBelow image blockSize inodeNumber stack below)
          (List.range (blockSize / 4)) offset).result⟩ := by
  rw [printIndBlks_eq] at h ⊢
  obtain ⟨start, hoffset, hnonneg⟩ := offset_of_pread_ok h
  rw [pread_of_nonneg hoffset hnonneg, Trace.bind_of_ok rfl]
  exact ⟨_, rfl⟩

/-- The rows of a call have at most its level. -/
theorem lvl_le_of_mem {row : IndirectRow} (h : .indirect row ∈
      (printIndBlks image blockSize inodeNumber below stack blkNmbr offset).events) :
    row.lvl ≤ below + 1 := by
  -- by induction on the levels below
  induction below generalizing stack blkNmbr offset with
  | zero =>
      obtain ⟨indBlocks, i, next, hmem⟩ := mem_pointerEvents_of_mem h
      unfold pointerEvents at hmem
      split at hmem
      · rcases List.mem_cons.mp hmem with hrow | hcall
        · cases hrow
          exact Nat.le_refl _
        · cases hcall
      · cases hmem
  | succ below ih =>
      obtain ⟨indBlocks, i, next, hmem⟩ := mem_pointerEvents_of_mem h
      unfold pointerEvents at hmem
      split at hmem
      · rcases List.mem_cons.mp hmem with hrow | hcall
        · cases hrow
          exact Nat.le_refl _
        · exact Nat.le_succ_of_le (ih hcall)
      · cases hmem

/-- The rows of the recursive calls have lower levels. -/
theorem lvl_lt_of_mem_callBelow {row : IndirectRow} {pointer : UInt32}
    (h : .indirect row ∈
      (callBelow image blockSize inodeNumber stack below i pointer offset).events) :
    row.lvl < below + 1 := by
  cases below with
  | zero => cases h
  | succ below => exact Nat.lt_succ_of_le (lvl_le_of_mem h)

/-- The blocks in the rows of the highest level are the pointers that are not zero. -/
theorem topRows_scanPointers (hcall : ∀ i pointer offset row,
      .indirect row ∈ (call i pointer offset).events → row.lvl < lvl)
    (h : (scanPointers inodeNumber lvl blkNmbr indBlocks call is offset).result = .ok ()) :
    ((indirectRows (scanPointers inodeNumber lvl blkNmbr indBlocks call is offset).events).filter
        (·.lvl = lvl)).map (·.block) =
      ((is.map (pointerAt indBlocks)).filter (· ≠ 0)).map asInt := by
  induction is generalizing offset with
  | nil => rfl
  | cons i is ih =>
      obtain ⟨next, hok, hevents⟩ := events_scanPointers_cons h
      rw [hevents, indirectRows_append, List.filter_append, List.map_append, ih hok]
      -- the rows of the recursive call are on lower levels
      have hbelow : (indirectRows (call i (pointerAt indBlocks i) offset).events).filter
          (·.lvl = lvl) = [] := by
        rw [List.filter_eq_nil_iff]
        intro row hrow
        have hlvl := hcall _ _ _ _ (mem_indirectRows.mp hrow)
        simpa using Nat.ne_of_lt hlvl
      unfold pointerEvents
      rw [List.map_cons, List.filter_cons]
      by_cases hpointer : pointerAt indBlocks i ≠ 0
      · have hrows : (indirectRows (.indirect (pointerRow inodeNumber lvl offset blkNmbr
            (pointerAt indBlocks i)) :: (call i (pointerAt indBlocks i) offset).events)).filter
            (·.lvl = lvl) = [pointerRow inodeNumber lvl offset blkNmbr
              (pointerAt indBlocks i)] := by
          show List.filter _ (pointerRow inodeNumber lvl offset blkNmbr (pointerAt indBlocks i) ::
            indirectRows _) = _
          rw [List.filter_cons_of_pos (by simp [pointerRow]), hbelow]
        rw [if_pos hpointer, if_pos (by simpa using hpointer), hrows]
        rfl
      · rw [if_neg hpointer, if_neg (by simpa using hpointer)]
        rfl

/-! ## Pointers from the stack -/

/-- Only the first pointer is read. -/
theorem pointerAt_fill_of_pos (hi : 0 < i) (start : Nat) :
    pointerAt (image.fill bytes sizeofBlockSize start) i = pointerAt bytes i := by
  refine u32At_congr fun j hj => ?_
  unfold Image.fill sizeofBlockSize
  rw [if_neg (by omega)]

/-- The stack with such bytes where the outermost call has its array, and zeros elsewhere. -/
def topStack (byte : UInt8) : Stack
  | [] => fun _ => byte
  | _ => fun _ => 0

/-- The pointers of a block are the first one and those from the stack. -/
theorem map_pointerAt_fill (start : Nat) (byte : UInt8) (hsize : 4 ≤ blockSize) :
    (List.range (blockSize / 4)).map
        (pointerAt (image.fill (topStack byte []) sizeofBlockSize start)) =
      pointerAt (image.fill (topStack byte []) sizeofBlockSize start) 0 ::
        List.replicate (blockSize / 4 - 1) (u32At (fun _ => byte) 0) := by
  obtain ⟨n, hn⟩ := Nat.exists_eq_add_of_le' (Nat.div_pos hsize (Nat.succ_pos 3))
  rw [hn, List.range_succ_eq_map, List.map_cons, List.map_map, Nat.add_sub_cancel]
  congr 1
  rw [List.eq_replicate_iff]
  refine ⟨by simp, ?_⟩
  intro pointer hpointer
  obtain ⟨i, -, rfl⟩ := List.mem_map.mp hpointer
  exact pointerAt_fill_of_pos (Nat.succ_pos i) start

/-- How many rows of the highest level are printed. -/
theorem length_topRows (byte : UInt8) (hsize : 4 ≤ blockSize)
    (h : (printIndBlks image blockSize inodeNumber below (topStack byte) blkNmbr offset).result =
      .ok ()) :
    ∃ first, ((indirectRows (printIndBlks image blockSize inodeNumber below (topStack byte) blkNmbr
        offset).events).filter (·.lvl = below + 1)).length =
      ((first :: List.replicate (blockSize / 4 - 1) (u32At (fun _ => byte) 0)).filter
        (· ≠ 0)).length := by
  obtain ⟨start, hprint⟩ := printIndBlks_of_ok h
  rw [hprint] at h ⊢
  have htop := topRows_scanPointers (fun _ _ _ _ => lvl_lt_of_mem_callBelow) h
  rw [map_pointerAt_fill start byte hsize] at htop
  have hlength := congrArg List.length htop
  rw [List.length_map, List.length_map] at hlength
  exact ⟨_, hlength⟩

/-- With zeros on the stack, there is at most the row of the first pointer. -/
theorem length_filter_zeros (first : UInt32) (n : Nat) :
    ((first :: List.replicate n 0).filter (· ≠ 0)).length ≤ 1 := by
  have hzeros : (List.replicate n (0 : UInt32)).filter (· ≠ 0) = [] := by
    simp
  rw [List.filter_cons, hzeros]
  split
  · exact Nat.le_refl 1
  · exact Nat.zero_le 1

/-- With another word there, every pointer but the first one has a row. -/
theorem le_length_filter_words (first : UInt32) (n : Nat) {word : UInt32} (hword : word ≠ 0) :
    n ≤ ((first :: List.replicate n word).filter (· ≠ 0)).length := by
  have hwords : (List.replicate n word).filter (· ≠ 0) = List.replicate n word := by
    simp [hword]
  rw [List.filter_cons, hwords]
  split <;> simp

/-- The rows are never those of the image: with other bytes on the stack, there are more of them. -/
theorem not_printsTree (image : Image) (k : Nat) (inodeNumber : Int) (below : Nat)
    (blkNmbr : UInt32) (offset : Nat) :
    ¬ PrintsTree image (1024 <<< k) inodeNumber below blkNmbr offset := by
  intro hprints
  have hsize : 1024 ≤ 1024 <<< k := by
    rw [Nat.shiftLeft_eq]
    exact Nat.le_mul_of_pos_right 1024 (Nat.two_pow_pos k)
  obtain ⟨hokZero, hrowsZero⟩ := hprints (topStack 0)
  obtain ⟨hokOne, hrowsOne⟩ := hprints (topStack 1)
  obtain ⟨first, hzero⟩ := length_topRows 0 (Nat.le_trans (by decide) hsize) hokZero
  obtain ⟨first', hone⟩ := length_topRows 1 (Nat.le_trans (by decide) hsize) hokOne
  have hfew := length_filter_zeros first ((1024 <<< k) / 4 - 1)
  have hmany := le_length_filter_words first' ((1024 <<< k) / 4 - 1)
    (show u32At (fun _ => 1) 0 ≠ 0 by decide)
  -- the same rows would be at most one and at least 255
  rw [hrowsZero] at hzero
  rw [hrowsOne, hzero] at hone
  have hlength : ((first :: List.replicate ((1024 <<< k) / 4 - 1) 0).filter (· ≠ 0)).length =
      ((first' :: List.replicate ((1024 <<< k) / 4 - 1) (u32At (fun _ => 1) 0)).filter
        (· ≠ 0)).length := hone
  omega

/-- An image whose block 8 has the pointers 9 and 10. -/
def pointerImage : Image :=
  ⟨16384, fun position => if position = 8192 then 9 else if position = 8196 then 10 else 0⟩

/-- With zeros on the stack, the row of the second pointer is missing. -/
theorem second_pointer_missing : ¬ PrintsTree pointerImage 1024 11 0 8 12 := by
  intro hprints
  obtain ⟨hok, hrows⟩ := hprints (topStack 0)
  obtain ⟨first, hlength⟩ := length_topRows 0 (by decide) hok
  have hfew := length_filter_zeros first (1024 / 4 - 1)
  have happend : List.range' 0 2 ++ List.range' (0 + 2) 254 = List.range' 0 (2 + 254) :=
    List.range'_append_1
  have hsplit : List.range (1024 / 4) = [0, 1] ++ List.range' 2 254 :=
    List.range_eq_range'.trans happend.symm
  have hnine : pointerAt (fun j => pointerImage.byte ((8 : UInt32).toNat * 1024 + j)) 0 = 9 := by
    decide
  have hten : pointerAt (fun j => pointerImage.byte ((8 : UInt32).toNat * 1024 + j)) 1 = 10 := by
    decide
  -- the tree has the rows of both pointers
  rw [hrows, Image.treeRows, hsplit, List.flatMap_append, List.filter_append,
    List.length_append, List.flatMap_cons, List.flatMap_cons, List.flatMap_nil] at hlength
  simp only [hnine, hten] at hlength
  generalize List.length (List.filter _ (List.flatMap _ (List.range' 2 254))) = others at hlength
  have hzero : u32At (fun _ => 0) 0 = 0 := rfl
  rw [hzero] at hlength
  rw [← hlength] at hfew
  have htwo : 2 + others ≤ 1 := hfew
  omega

end Coursework.FileSystem
