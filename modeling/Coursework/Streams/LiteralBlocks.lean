import Coursework.Streams.Codec

/-!
# Deflate streams of single literals

A compressor that gives every byte a block of its own: the literal in the fixed Huffman code, the
end of the block and an empty stored block up to the byte boundary. That is what a synchronising
flush after each byte leaves on the wire. The decoder reads back such streams.
Vocabulary and scope: `Coursework.Streams.Codec`.
-/

namespace Coursework.Streams.LiteralBlocks

/-- The fixed Huffman code of a literal, its first bit first. -/
def code (b : Nat) : List Bool :=
  if b < 144 then (List.range 8).map fun i => (0x30 + b).testBit (7 - i)
  else (List.range 9).map fun i => (0x190 + (b - 144)).testBit (8 - i)

/-- The number whose bits these are, the lowest first. -/
def ofBits : List Bool → Nat
  | [] => 0
  | bit :: bits => bit.toNat + 2 * ofBits bits

/-- The bits of a block before its end: no last block, fixed codes, the literal. -/
def block (b : Nat) : Nat :=
  ofBits ([false, true, false] ++ code b)

/-- A block and the empty stored block behind it. -/
def frame (b : UInt8) : List UInt8 :=
  [UInt8.ofNat (block b.toNat), UInt8.ofNat (block b.toNat / 256), 0, 0, 0, 0xFF, 0xFF]

/-- The literal of a block. -/
def literal (block : Nat) : Nat :=
  let bits := (List.range 8).map fun i => block.testBit (10 - i)
  if ofBits bits < 0xC8 then ofBits bits - 0x30
  else 2 * ofBits bits + (block.testBit 11).toNat - 0x190 + 144

/-- The decoder: how much of the header is still to come, and the bytes of the block so far. -/
def inflateByte (state : Nat × List UInt8) (byte : UInt8) : (Nat × List UInt8) × List UInt8 :=
  match state with
  | (skip + 1, pending) => ((skip, pending), [])
  | (0, pending) =>
      if pending.length < 6 then ((0, pending ++ [byte]), [])
      else
        let x := pending.getD 0 0
        let y := pending.getD 1 0
        ((0, []), [UInt8.ofNat (literal (x.toNat + 256 * y.toNat))])

/-- The two bytes in front of the first block. -/
def header : List UInt8 := [0x78, 0x9C]

/-- The compressor, whose state says whether the header was written, and the decompressor. -/
def codec : Codec Bool (Nat × List UInt8) UInt8 where
  outbound := false
  inbound := (2, [])
  encode := fun started x => (true, (if started then [] else header) ++ x.flatMap frame)
  decode := feed inflateByte

/-- The literal comes back from its block. -/
theorem literal_block (b : Fin 256) :
    UInt8.ofNat (literal ((UInt8.ofNat (block b)).toNat +
      256 * (UInt8.ofNat (block b / 256)).toNat)) = UInt8.ofNat b := by
  revert b
  decide +kernel

/-- Seven bytes give a literal, which only the first two determine. -/
theorem feed_seven (x y a b c d e : UInt8) :
    feed inflateByte (0, []) [x, y, a, b, c, d, e] =
      ((0, []), [UInt8.ofNat (literal (x.toNat + 256 * y.toNat))]) := rfl

theorem feed_frame (b : UInt8) : feed inflateByte (0, []) (frame b) = ((0, []), [b]) := by
  have h := literal_block ⟨b.toNat, b.toNat_lt⟩
  rw [UInt8.ofNat_toNat] at h
  rw [frame, feed_seven, h]

/-- The blocks of a list of bytes. -/
theorem feed_frames (x : List UInt8) :
    feed inflateByte (0, []) (x.flatMap frame) = ((0, []), x) := by
  induction x with
  | nil => rfl
  | cons b x ih => rw [List.flatMap_cons, feed_append, feed_frame, ih, List.singleton_append]

theorem encoded_started (inputs : List (List UInt8)) :
    feed codec.encode true inputs = (true, inputs.flatten.flatMap frame) := by
  induction inputs with
  | nil => rfl
  | cons x inputs ih =>
      show ((feed codec.encode true inputs).1,
        x.flatMap frame ++ (feed codec.encode true inputs).2) = _
      rw [ih, List.flatten_cons, List.flatMap_append]

/-- The stream is the header and the blocks, unless nothing was encoded. -/
theorem encoded_eq (inputs : List (List UInt8)) :
    (codec.encoded inputs).2 =
      if inputs = [] then [] else header ++ inputs.flatten.flatMap frame := by
  cases inputs with
  | nil => rfl
  | cons x inputs =>
      rw [if_neg (List.cons_ne_nil x inputs), Codec.encoded, feed]
      show (header ++ x.flatMap frame) ++ (feed codec.encode true inputs).2 = _
      rw [encoded_started, List.flatten_cons, List.flatMap_append, List.append_assoc]

theorem lossless : codec.Lossless := by
  intro inputs pieces h
  rw [encoded_eq] at h
  show (feed (feed inflateByte) (2, []) pieces).2 = inputs.flatten
  rw [feed_feed, h]
  split
  case isTrue hnil =>
    rw [hnil]
    rfl
  case isFalse =>
    show (feed inflateByte (0, []) (inputs.flatten.flatMap frame)).2 = _
    rw [feed_frames]

end Coursework.Streams.LiteralBlocks
