import Mathlib.Data.List.Basic
import Mathlib.Data.List.Infix

/-!
# Stream codecs

An encoder and a decoder that keep a state between calls. `Lossless` says that decoding the
encoded stream gives back what was encoded, however the stream is cut into pieces. A decoder that
works byte by byte does not see the cuts (`feed_feed`).
-/

namespace Coursework.Streams

variable {σ τ α β γ : Type}

/-- The state and the whole output after a list of calls. -/
def feed (f : σ → γ → σ × List β) (s : σ) : List γ → σ × List β
  | [] => (s, [])
  | x :: xs => ((feed f (f s x).1 xs).1, (f s x).2 ++ (feed f (f s x).1 xs).2)

section Feed

variable (f : σ → γ → σ × List β) (s : σ)

@[simp] theorem feed_nil : feed f s [] = (s, []) := rfl

theorem feed_singleton (x : γ) : feed f s [x] = f s x := by
  simp [feed]

theorem feed_append (xs ys : List γ) :
    feed f s (xs ++ ys) =
      ((feed f (feed f s xs).1 ys).1, (feed f s xs).2 ++ (feed f (feed f s xs).1 ys).2) := by
  induction xs generalizing s with
  | nil => rfl
  | cons x xs ih => simp only [List.cons_append, feed, ih, List.append_assoc]

/-- Calls on the pieces of a list are one call on the list. -/
theorem feed_feed (pieces : List (List γ)) : feed (feed f) s pieces = feed f s pieces.flatten := by
  induction pieces generalizing s with
  | nil => rfl
  | cons piece pieces ih => rw [feed, List.flatten_cons, feed_append, ih]

end Feed

/-- An encoder and a decoder with their first states. -/
structure Codec (σ τ α : Type) where
  outbound : σ
  inbound : τ
  encode : σ → List α → σ × List α
  decode : τ → List α → τ × List α

namespace Codec

variable (c : Codec σ τ α)

/-- The encoder after its calls and the stream it made. -/
def encoded (inputs : List (List α)) : σ × List α :=
  feed c.encode c.outbound inputs

/-- The decoder after its calls and what it made of the pieces. -/
def decoded (pieces : List (List α)) : τ × List α :=
  feed c.decode c.inbound pieces

/-- Whatever the cuts, the decoder gives back what was encoded. -/
def Lossless : Prop :=
  ∀ inputs pieces, pieces.flatten = (c.encoded inputs).2 → (c.decoded pieces).2 = inputs.flatten

variable {c}

/-- The beginning of a stream is decoded to a beginning. -/
theorem Lossless.decoded_inOrder (h : c.Lossless) {inputs pieces : List (List α)}
    (hpieces : pieces.flatten <+: (c.encoded inputs).2) :
    (c.decoded pieces).2 <+: inputs.flatten := by
  obtain ⟨rest, hrest⟩ := hpieces
  have hall : (c.decoded (pieces ++ [rest])).2 = inputs.flatten := h inputs _ (by simpa using hrest)
  rw [decoded, feed_append] at hall
  exact ⟨_, hall⟩

/-- The codec that changes nothing. -/
def copying (s : σ) (t : τ) : Codec σ τ α where
  outbound := s
  inbound := t
  encode := fun s x => (s, x)
  decode := fun t x => (t, x)

theorem feed_copying (s : σ) (xs : List (List α)) :
    feed (fun s x => (s, x)) s xs = (s, xs.flatten) := by
  induction xs with
  | nil => rfl
  | cons x xs ih => rw [feed, ih, List.flatten_cons]

theorem lossless_copying (s : σ) (t : τ) : (copying s t : Codec σ τ α).Lossless := by
  intro inputs pieces h
  rw [encoded, copying, feed_copying] at h
  rw [decoded, copying, feed_copying]
  exact h

end Codec

end Coursework.Streams
