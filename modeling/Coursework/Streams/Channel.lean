import Coursework.Streams.Codec

/-!
# Channels

A codec with a wire between its ends. `Carries` is the invariant of a channel whose ends take turns
in any order: what was encoded is on the wire or was received. What was decoded is then a beginning
of what was encoded (`Carries.inOrder`), and all of it once the wire is empty (`Carries.complete`).
-/

namespace Coursework.Streams.Codec

variable {σ τ α : Type} (c : Codec σ τ α)

/-- The states of both ends and the wire after `inputs` were encoded and `pieces` received. -/
structure Carries (inputs pieces : List (List α)) (outbound : σ) (wire : List α) (inbound : τ) :
    Prop where
  encoded : c.encoded inputs = (outbound, pieces.flatten ++ wire)
  decoded : (c.decoded pieces).1 = inbound

variable {c} {inputs pieces : List (List α)} {outbound : σ} {wire : List α} {inbound : τ}

/-- The sender encodes. -/
theorem Carries.send (h : c.Carries inputs pieces outbound wire inbound) (input : List α) :
    c.Carries (inputs ++ [input]) pieces (c.encode outbound input).1
      (wire ++ (c.encode outbound input).2) inbound := by
  refine ⟨?_, h.decoded⟩
  have hencoded := h.encoded
  rw [Codec.encoded] at hencoded ⊢
  rw [feed_append, hencoded, feed_singleton, List.append_assoc]

/-- What a further piece adds. -/
theorem decoded_concat (c : Codec σ τ α) (pieces : List (List α)) (piece : List α) :
    c.decoded (pieces ++ [piece]) = ((c.decode (c.decoded pieces).1 piece).1,
      (c.decoded pieces).2 ++ (c.decode (c.decoded pieces).1 piece).2) := by
  rw [Codec.decoded, feed_append, feed_singleton]
  rfl

/-- The receiver decodes the first bytes of the wire. -/
theorem Carries.receive (h : c.Carries inputs pieces outbound wire inbound) (n : Nat) :
    c.Carries inputs (pieces ++ [wire.take n]) outbound (wire.drop n)
      (c.decode inbound (wire.take n)).1 := by
  constructor
  · rw [h.encoded, List.flatten_append, List.flatten_singleton, List.append_assoc,
      List.take_append_drop]
  · rw [decoded_concat, h.decoded]

/-- What it decodes. -/
theorem Carries.decoded_receive (h : c.Carries inputs pieces outbound wire inbound) (n : Nat) :
    (c.decoded (pieces ++ [wire.take n])).2 =
      (c.decoded pieces).2 ++ (c.decode inbound (wire.take n)).2 := by
  rw [decoded_concat, h.decoded]

theorem Carries.inOrder (h : c.Carries inputs pieces outbound wire inbound) (hc : c.Lossless) :
    (c.decoded pieces).2 <+: inputs.flatten := by
  refine hc.decoded_inOrder ?_
  rw [h.encoded]
  exact List.prefix_append _ _

theorem Carries.complete (h : c.Carries inputs pieces outbound [] inbound) (hc : c.Lossless) :
    (c.decoded pieces).2 = inputs.flatten := by
  refine hc inputs pieces ?_
  rw [h.encoded, List.append_nil]

end Coursework.Streams.Codec
