import Coursework.Streams.Inflate
import Coursework.Streams.LiteralBlocks

/-!
# Deflate streams in the fixed codes

A decoder for streams of blocks in the fixed Huffman codes whose symbols are literals and the
longest repetition of the last byte, with empty stored blocks between them, and a stream that says
much in few bytes.
Vocabulary and scope: `Coursework.Streams.Inflate`, and the codes of
`Coursework.Streams.LiteralBlocks`.
-/

namespace Coursework.Streams.FixedBlocks

/-- What the next bits are part of: bits that say nothing, the type of a block, a literal or length,
a distance. -/
inductive Mode where
  | skip (bits : Nat)
  | blockType
  | codes
  | distance
  deriving DecidableEq

/-- The decoder, with the bits of the symbol so far and the last byte that was put out. -/
structure State where
  mode : Mode
  bits : List Bool
  last : UInt8
  deriving DecidableEq

/-- The number whose bits these are, the highest first. -/
def value (bits : List Bool) : Nat :=
  bits.foldl (fun n bit => 2 * n + bit.toNat) 0

/-- The literal of a code. -/
def literalOf (bits : List Bool) : Option UInt8 :=
  if bits.length = 8 ∧ 0x30 ≤ value bits ∧ value bits < 0xC0 then
    some (UInt8.ofNat (value bits - 0x30))
  else if bits.length = 9 ∧ 0x190 ≤ value bits then some (UInt8.ofNat (value bits - 0x190 + 144))
  else none

/-- The code of the length `258`. -/
def longest : List Bool :=
  [true, true, false, false, false, true, false, true]

/-- The decoder reads a bit, given with its place in its byte. -/
def inflateBit (s : State) (bit : Bool × Nat) : State × List UInt8 :=
  let bits := s.bits ++ [bit.1]
  match s.mode with
  | .skip left => (⟨if left ≤ 1 then .blockType else .skip (left - 1), [], s.last⟩, [])
  | .blockType =>
      if bits = [false, true, false] then (⟨.codes, [], s.last⟩, [])
      -- the rest of the byte and the two lengths of the stored block
      else if bits = [false, false, false] then (⟨.skip (7 - bit.2 + 32), [], s.last⟩, [])
      else (⟨.blockType, bits, s.last⟩, [])
  | .codes =>
      if bits = List.replicate 7 false then (⟨.blockType, [], s.last⟩, [])
      else if bits = longest then (⟨.distance, [], s.last⟩, [])
      else
        match literalOf bits with
        | some b => (⟨.codes, [], b⟩, [b])
        | none => (⟨.codes, bits, s.last⟩, [])
  | .distance =>
      if bits = List.replicate 5 false then (⟨.codes, [], s.last⟩, List.replicate 258 s.last)
      else (⟨.distance, bits, s.last⟩, [])

/-- The bits of a byte, the lowest first. -/
def bitsOf (byte : UInt8) : List (Bool × Nat) :=
  (List.range 8).map fun i => (byte.toNat.testBit i, i)

/-- The decoder reads a byte. -/
def inflateByte (s : State) (byte : UInt8) : State × List UInt8 :=
  feed inflateBit s (bitsOf byte)

/-- The decoder before the two bytes in front of the first block. -/
def start : State :=
  ⟨.skip 16, [], 0⟩

/-- The decompressor. -/
def inflater : Inflater (State × List UInt8) UInt8 :=
  .ofDecoder inflateByte start

/-- What a stream stands for. -/
def plain (input : List UInt8) : List UInt8 :=
  (feed inflateByte start input).2

/-- The bytes that have to be put out before a stream can be consumed. -/
def needed (input : List UInt8) : Nat :=
  (plain input.dropLast).length

/-- The decompressor decompresses to what the decoder reads. -/
theorem inflater_decompresses : inflater.Decompresses (fun _ => True) plain needed
    (fun t consumed given => feed inflateByte start consumed = (t.1, given ++ t.2) ∧
      needed consumed ≤ given.length) :=
  ofDecoder_decompresses inflateByte start

/-- Eight times the longest repetition, from the sixth bit of its code on. -/
def repetitions : List UInt8 :=
  [0x05, 0xA3, 0x60, 0x14, 0x8C, 0x82, 0x51, 0x30, 0x0A, 0x46, 0xC1, 0x28, 0x18]

/-- The same at the end of a block, whose code begins with zeros. -/
def lastRepetitions : List UInt8 :=
  [0x05, 0xA3, 0x60, 0x14, 0x8C, 0x82, 0x51, 0x30, 0x0A, 0x46, 0xC1, 0x28, 0x00]

/-- The beginning of a block with the letter a and repetitions of it. -/
def opening (n : Nat) : List UInt8 :=
  LiteralBlocks.header ++ [0x4A, 0x1C] ++ (List.replicate n repetitions).flatten

/-- The end of the block, and an empty stored block. -/
def closing : List UInt8 :=
  [0x00, 0x00, 0x00, 0xFF, 0xFF]

/-- A block with the letter a and `8 * (n + 1)` repetitions of it, and the empty stored block behind
it. -/
def flood (n : Nat) : List UInt8 :=
  opening n ++ lastRepetitions ++ closing

/-- The decoder in the midst of the code of the longest repetition. -/
def repeating : State :=
  ⟨.codes, [true, true, false, false, false], 0x61⟩

/-- Thirteen bytes stand for eight times `258`. -/
theorem feed_repetitions (n : Nat) :
    (feed inflateByte repeating (List.replicate n repetitions).flatten).1 = repeating ∧
      (feed inflateByte repeating (List.replicate n repetitions).flatten).2.length = 2064 * n := by
  induction n with
  | zero => exact ⟨rfl, rfl⟩
  | succ n ih =>
      have honce : (feed inflateByte repeating repetitions).1 = repeating ∧
          (feed inflateByte repeating repetitions).2.length = 2064 := by decide +kernel
      rw [List.replicate_succ, List.flatten_cons, feed_append, honce.1]
      refine ⟨ih.1, ?_⟩
      rw [List.length_append, honce.2, ih.2]
      omega

/-- What the beginning of a block stands for, with some bytes behind it. -/
theorem plain_opening (n : Nat) (input : List UInt8) :
    (plain (opening n ++ input)).length =
      2064 * n + 1 + (feed inflateByte repeating input).2.length := by
  have hstart : feed inflateByte start (LiteralBlocks.header ++ [0x4A, 0x1C]) =
      (repeating, [0x61]) := by decide +kernel
  obtain ⟨hstate, hlength⟩ := feed_repetitions n
  unfold plain opening
  rw [feed_append, feed_append, hstart]
  simp only
  rw [hstate, List.length_append, List.length_append, hlength, List.length_singleton]
  omega

/-- The bytes that are needed for them. -/
theorem needed_opening (n : Nat) {input : List UInt8} (hne : input ≠ []) :
    needed (opening n ++ input) =
      2064 * n + 1 + (feed inflateByte repeating input.dropLast).2.length := by
  unfold needed
  rw [List.dropLast_append_of_ne_nil hne, plain_opening]

/-- What the flood stands for. -/
theorem plain_flood (n : Nat) : (plain (flood n)).length = 2064 * (n + 1) + 1 := by
  have hend : (feed inflateByte repeating (lastRepetitions ++ closing)).2.length = 2064 := by
    decide +kernel
  unfold flood
  rw [List.append_assoc, plain_opening, hend]
  omega

/-- All of it is needed before the last byte of the flood. -/
theorem needed_flood (n : Nat) : needed (flood n) = 2064 * (n + 1) + 1 := by
  have hend : (feed inflateByte repeating (lastRepetitions ++ closing).dropLast).2.length =
      2064 := by decide +kernel
  unfold flood
  rw [List.append_assoc, needed_opening n (by decide), hend]
  omega

/-- But only a part before the last byte of the block. -/
theorem needed_block (n : Nat) : needed (opening n ++ lastRepetitions) = 2064 * n + 1807 := by
  have hend : (feed inflateByte repeating lastRepetitions.dropLast).2.length = 1806 := by
    decide +kernel
  rw [needed_opening n (by decide), hend]

end Coursework.Streams.FixedBlocks
