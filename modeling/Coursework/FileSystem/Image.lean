import Coursework.FileSystem.Lab3a
import Coursework.Numbers.IntRange
import Coursework.Streams.Trace
import Mathlib.Algebra.Group.Nat.Defs
import Mathlib.Algebra.Ring.Int.Defs

/-!
# Reading the image

How `lab3a.c` reads blocks of an image: the byte offset of a block is computed in `unsigned int` for
the bitmaps and the inode table and in `int` for directories and indirect blocks, and `pread` copies
what the image has there to the front of an array. The contents of an array that nothing has been
copied to are those that were on the stack before. An overflow of `int` is undefined.
-/

namespace Coursework.FileSystem

open Numbers Python Stdio

/-- The bytes of an array. -/
abbrev Memory := Nat → UInt8

/-- A 16-bit field of a structure. -/
def u16At (bytes : Memory) (position : Nat) : UInt16 :=
  .ofNat ((bytes position).toNat + 256 * (bytes (position + 1)).toNat)

/-- A 32-bit field of a structure. -/
def u32At (bytes : Memory) (position : Nat) : UInt32 :=
  .ofNat ((u16At bytes position).toNat + 65536 * (u16At bytes (position + 2)).toNat)

/-- What is on the stack where a function puts its arrays; the function called `i`-th finds
`stack.sub i`. -/
abbrev Stack := List Nat → Memory

/-- The part of the stack for the function called `i`-th. -/
def Stack.sub (stack : Stack) (i : Nat) : Stack := fun path => stack (i :: path)

/-- An image: its size and its bytes. -/
structure Image where
  size : Nat
  byte : Memory

/-- The array after `count` bytes at an offset were read to it, as many as the image has. -/
def Image.fill (image : Image) (bytes : Memory) (count offset : Nat) : Memory := fun j =>
  if j < count ∧ offset + j < image.size then image.byte (offset + j) else bytes j

/-- A read of a block, or of a place in a block of a directory. -/
inductive Access where
  | blockBitmap (block : UInt32)
  | inodeBitmap (block : UInt32)
  | inodeTable (block : UInt32)
  | directory (block : UInt32) (logicalOffset : Nat)
  | indirect (block : UInt32)
  deriving DecidableEq

/-- The product of an `unsigned int` and `BLOCK_SIZE`. -/
def unsignedOffset (blockSize : Nat) (block : UInt32) : Option Int :=
  some ((block.toNat * blockSize % 2 ^ 32 : Nat) : Int)

/-- The offset that is passed to `pread`. -/
def Access.offset (blockSize : Nat) : Access → Option Int
  | blockBitmap block | inodeBitmap block | inodeTable block => unsignedOffset blockSize block
  | directory block logicalOffset => do
      let start ← intResult (asInt block * blockSize)
      intResult (start + logicalOffset)
  | indirect block => intResult (asInt block * blockSize)

/-- The arguments of `printf` for the row of a directory entry; there is no name if it goes on
behind the end of the structure. -/
structure DirectRow where
  inodeNumber : Int
  logicalOffset : Int
  inode : Int
  recLen : Nat
  nameLen : Nat
  name : Option Text
  deriving DecidableEq

/-- The arguments of `printf` for the row of an indirect block. -/
structure IndirectRow where
  inodeNumber : Int
  lvl : Nat
  offset : Int
  blkNmbr : Int
  block : Int
  deriving DecidableEq

/-- What the program does: reading a block and printing a row. -/
inductive Event where
  | access (a : Access)
  | direct (row : DirectRow)
  | indirect (row : IndirectRow)
  | printed (row : Text)
  deriving DecidableEq

/-- Why the program stops: a call of `exit`, a failed assertion, something undefined, or the bound
for the iterations of a loop. -/
inductive Halt where
  | exit
  | abort
  | undefined
  | unfinished
  deriving DecidableEq

/-- A part of the program. -/
abbrev Dump := Trace Event Halt

/-- `pread` of `count` bytes and the test of its result. -/
def Image.pread (image : Image) (blockSize : Nat) (a : Access) (count : Nat) (bytes : Memory) :
    Dump Memory := do
  Trace.emit (.access a)
  match a.offset blockSize with
  | none => .halt .undefined
  | some offset =>
      -- no image has a negative offset
      if offset < 0 then .halt .exit else pure (image.fill bytes count offset.toNat)

section Pread

variable {image : Image} {blockSize : Nat} {a : Access} {count : Nat} {bytes : Memory}

theorem pread_of_none (h : a.offset blockSize = none) :
    image.pread blockSize a count bytes = ⟨[.access a], .error .undefined⟩ := by
  unfold Image.pread
  rw [h]
  rfl

theorem pread_of_neg {offset : Int} (h : a.offset blockSize = some offset) (hneg : offset < 0) :
    image.pread blockSize a count bytes = ⟨[.access a], .error .exit⟩ := by
  unfold Image.pread
  simp only [h, if_pos hneg]
  rfl

theorem pread_of_nonneg {offset : Int} (h : a.offset blockSize = some offset)
    (hnonneg : 0 ≤ offset) : image.pread blockSize a count bytes =
      ⟨[.access a], .ok (image.fill bytes count offset.toNat)⟩ := by
  unfold Image.pread
  simp only [h, if_neg (Int.not_lt.mpr hnonneg)]
  rfl

/-- What goes on after a read has an offset to read from. -/
theorem offset_of_pread_ok {β : Type} {f : Memory → Dump β} {b : β}
    (h : (image.pread blockSize a count bytes >>= f).result = .ok b) :
    ∃ offset, a.offset blockSize = some offset ∧ 0 ≤ offset := by
  cases hoffset : a.offset blockSize with
  | none =>
      rw [pread_of_none hoffset, Trace.bind_of_error rfl] at h
      cases h
  | some offset =>
      by_cases hneg : offset < 0
      · rw [pread_of_neg hoffset hneg, Trace.bind_of_error rfl] at h
        cases h
      · exact ⟨offset, rfl, Int.not_lt.mp hneg⟩

end Pread

/-- The rows of directory entries that were printed. -/
def directRows (events : List Event) : List DirectRow :=
  events.filterMap fun
    | .direct row => some row
    | _ => none

/-- The rows of indirect blocks that were printed. -/
def indirectRows (events : List Event) : List IndirectRow :=
  events.filterMap fun
    | .indirect row => some row
    | _ => none

/-- The reads of blocks. -/
def accesses (events : List Event) : List Access :=
  events.filterMap fun
    | .access a => some a
    | _ => none

theorem mem_indirectRows {row : IndirectRow} {events : List Event} :
    row ∈ indirectRows events ↔ .indirect row ∈ events :=
  Trace.mem_filterMap_iff fun e _ => by cases e <;> simp

theorem mem_accesses {a : Access} {events : List Event} :
    a ∈ accesses events ↔ .access a ∈ events :=
  Trace.mem_filterMap_iff fun e _ => by cases e <;> simp

end Coursework.FileSystem
