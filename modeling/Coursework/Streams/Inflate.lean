import Coursework.Streams.Codec

/-!
# Decompression into limited room

A decompressor is called with input and with room for so many bytes. It consumes as much of the
input as the room lets it; what it could not put out yet stays in its state or in the input.
`Decompresses` says so in terms of what the beginnings of a stream decompress to and of the bytes
that have to be put out before they can be consumed. A decoder that works byte by byte makes one
(`ofDecoder_decompresses`).
-/

namespace Coursework.Streams

variable {σ τ α : Type}

/-- What a call returns. -/
inductive ReturnCode where
  | ok | streamEnd | needDict | streamError | dataError | memError | bufError
  deriving DecidableEq

/-- The state after a call, the bytes it put out, and the input it did not consume. -/
structure Inflated (τ α : Type) where
  state : τ
  output : List α
  rest : List α
  code : ReturnCode

/-- A decompressor with its first state. -/
structure Inflater (τ α : Type) where
  inbound : τ
  inflate : τ → List α → Nat → Inflated τ α

/-- A call puts out no more than there is room for and fails on no valid stream. With room for the
bytes that are `needed` it takes all of its input, and then it puts out as much as there is room
for. A state `At s consumed given` has consumed and put out so much; what was put out is a beginning
of what was consumed. -/
structure Inflater.Decompresses (z : Inflater τ α) (Valid : List α → Prop)
    (plain : List α → List α) (needed : List α → Nat) (At : τ → List α → List α → Prop) :
    Prop where
  start : At z.inbound [] []
  beginning : ∀ consumed input, Valid (consumed ++ input) → Valid consumed
  given : ∀ s consumed given, At s consumed given → given <+: plain consumed
  call : ∀ s consumed given input room, At s consumed given → Valid (consumed ++ input) →
    (z.inflate s input room).output.length ≤ room ∧
      (z.inflate s input room).code ≠ .streamError ∧
      ∃ used, input = used ++ (z.inflate s input room).rest ∧
        At (z.inflate s input room).state (consumed ++ used)
          (given ++ (z.inflate s input room).output)
  takes : ∀ s consumed given input room, At s consumed given → Valid (consumed ++ input) →
    ((z.inflate s input room).rest = [] ↔ needed (consumed ++ input) ≤ given.length + room)
  fills : ∀ s consumed given input room, At s consumed given → Valid (consumed ++ input) →
    (z.inflate s input room).rest = [] →
      given ++ (z.inflate s input room).output =
        (plain (consumed ++ input)).take (given.length + room)

section Decoders

variable (f : σ → α → σ × List α)

/-- A decoder's state with the bytes it has yet to put out, the bytes that it puts out, and the
input that it leaves because there is no room for them. -/
def putOut (s : σ) (pending : List α) (room : Nat) : List α → (σ × List α) × List α × List α
  | [] => ((s, pending.drop room), pending.take room, [])
  | x :: input =>
      if pending.length ≤ room then
        let r := putOut (f s x).1 (f s x).2 (room - pending.length) input
        (r.1, pending ++ r.2.1, r.2.2)
      else ((s, pending.drop room), pending.take room, x :: input)

/-- The decompressor of a decoder. -/
def Inflater.ofDecoder (s : σ) : Inflater (σ × List α) α where
  inbound := (s, [])
  inflate s input room :=
    let r := putOut f s.1 s.2 room input
    ⟨r.1, r.2.1, r.2.2, if r.2.1 = [] ∧ r.2.2.length = input.length then .bufError else .ok⟩

/-- What the input stands for without its last element. -/
def settled (s : σ) (input : List α) : List α :=
  (feed f s input.dropLast).2

variable {f}

@[simp] theorem settled_nil (s : σ) : settled f s [] = [] := rfl

theorem settled_cons (s : σ) (x : α) {input : List α} (hne : input ≠ []) :
    settled f s (x :: input) = (f s x).2 ++ settled f (f s x).1 input := by
  unfold settled
  rw [List.dropLast_cons_of_ne_nil hne]
  rfl

theorem settled_append (s : σ) (front : List α) {input : List α} (hne : input ≠ []) :
    settled f s (front ++ input) = (feed f s front).2 ++ settled f (feed f s front).1 input := by
  unfold settled
  rw [List.dropLast_append_of_ne_nil hne, feed_append]

/-- Everything that the consumed input stands for is put out or pending, and what it stands for
without its last element is put out. -/
theorem putOut_consumed (s : σ) (pending : List α) (room : Nat) (input : List α) :
    ∃ used, input = used ++ (putOut f s pending room input).2.2 ∧
      (feed f s used).1 = (putOut f s pending room input).1.1 ∧
      pending ++ (feed f s used).2 =
        (putOut f s pending room input).2.1 ++ (putOut f s pending room input).1.2 ∧
      (used ≠ [] → (pending ++ settled f s used).length ≤
        (putOut f s pending room input).2.1.length) := by
  induction input generalizing s pending room with
  | nil => exact ⟨[], rfl, rfl, by simp [putOut], fun hne => absurd rfl hne⟩
  | cons x input ih =>
      unfold putOut
      split
      · obtain ⟨used, hinput, hstate, hbytes, hsettled⟩ :=
          ih (f s x).1 (f s x).2 (room - pending.length)
        refine ⟨x :: used, congrArg (x :: ·) hinput, hstate, ?_, fun _ => ?_⟩
        · show pending ++ ((f s x).2 ++ (feed f (f s x).1 used).2) = (pending ++ _) ++ _
          rw [hbytes, List.append_assoc]
        · show _ ≤ (pending ++ _).length
          rw [List.length_append, List.length_append]
          refine Nat.add_le_add_left ?_ _
          by_cases hused : used = []
          · rw [hused]
            exact Nat.zero_le _
          · rw [settled_cons s x hused]
            exact hsettled hused
      · exact ⟨[], rfl, rfl, by simp, fun hne => absurd rfl hne⟩

/-- The room is kept to. -/
theorem putOut_length (s : σ) (pending : List α) (room : Nat) (input : List α) :
    (putOut f s pending room input).2.1.length ≤ room := by
  induction input generalizing s pending room with
  | nil => exact List.length_take_le room pending
  | cons x input ih =>
      unfold putOut
      split
      · next hroom =>
        have hrest := ih (f s x).1 (f s x).2 (room - pending.length)
        show (pending ++ _).length ≤ room
        rw [List.length_append]
        omega
      · exact List.length_take_le room pending

/-- Bytes are pending only when the room is used up. -/
theorem putOut_full (s : σ) (pending : List α) (room : Nat) (input : List α)
    (h : (putOut f s pending room input).1.2 ≠ []) :
    (putOut f s pending room input).2.1.length = room := by
  induction input generalizing s pending room with
  | nil =>
      have hlong : ¬ pending.length ≤ room := mt List.drop_eq_nil_of_le h
      exact List.length_take_of_le (Nat.le_of_not_le hlong)
  | cons x input ih =>
      unfold putOut at h ⊢
      split
      · next hroom =>
        rw [if_pos hroom] at h
        have hrest := ih (f s x).1 (f s x).2 (room - pending.length) h
        show (pending ++ _).length = room
        rw [List.length_append]
        omega
      · next hroom => exact List.length_take_of_le (Nat.le_of_not_le hroom)

/-- All of the input is taken if there is room for what it stands for without its last element. -/
theorem putOut_rest_iff (s : σ) (pending : List α) (room : Nat) (input : List α) :
    (putOut f s pending room input).2.2 = [] ↔
      input = [] ∨ (pending ++ settled f s input).length ≤ room := by
  induction input generalizing s pending room with
  | nil => exact iff_of_true rfl (.inl rfl)
  | cons x input ih =>
      unfold putOut
      split
      · next hroom =>
        refine (ih (f s x).1 (f s x).2 (room - pending.length)).trans ?_
        by_cases hinput : input = []
        · subst hinput
          refine iff_of_true (.inl rfl) (.inr ?_)
          show (pending ++ []).length ≤ room
          rwa [List.append_nil]
        · rw [or_iff_right hinput, or_iff_right (List.cons_ne_nil x input),
            settled_cons s x hinput]
          simp only [List.length_append]
          omega
      · next hroom =>
        refine iff_of_false (List.cons_ne_nil x input) fun h => ?_
        rw [or_iff_right (List.cons_ne_nil x input), List.length_append] at h
        omega

/-- A call that takes all of its input puts out as much as there is room for. -/
theorem putOut_output (s : σ) (pending : List α) (room : Nat) (input : List α)
    (hrest : (putOut f s pending room input).2.2 = []) :
    (putOut f s pending room input).2.1 = (pending ++ (feed f s input).2).take room := by
  obtain ⟨used, hinput, -, hbytes, -⟩ := putOut_consumed (f := f) s pending room input
  rw [hrest, List.append_nil] at hinput
  rw [hinput, hbytes, ← hinput]
  by_cases hpending : (putOut f s pending room input).1.2 = []
  · rw [hpending, List.append_nil, List.take_of_length_le (putOut_length s pending room input)]
  · rw [List.take_left' (putOut_full s pending room input hpending)]

/-- A call is no use of the stream that is an error. -/
theorem ofDecoder_code (f : σ → α → σ × List α) (s : σ) (t : σ × List α) (input : List α)
    (room : Nat) : ((Inflater.ofDecoder f s).inflate t input room).code ≠ .streamError := by
  show (if _ then ReturnCode.bufError else .ok) ≠ _
  split <;> exact nofun

/-- The decompressor of a decoder decompresses to what the decoder reads, and to take an element of
the input it needs room for what those in front stand for. -/
theorem ofDecoder_decompresses (f : σ → α → σ × List α) (s : σ) :
    (Inflater.ofDecoder f s).Decompresses (fun _ => True) (fun input => (feed f s input).2)
      (fun input => (settled f s input).length)
      (fun t consumed given => feed f s consumed = (t.1, given ++ t.2) ∧
        (settled f s consumed).length ≤ given.length) where
  start := ⟨rfl, Nat.le_refl 0⟩
  beginning := fun _ _ _ => trivial
  given := by
    intro t consumed given h
    rw [h.1]
    exact List.prefix_append given t.2
  call := by
    intro t consumed given input room h _
    obtain ⟨hfeed, hsettled⟩ := h
    obtain ⟨used, hinput, hstate, hbytes, hput⟩ := putOut_consumed (f := f) t.1 t.2 room input
    refine ⟨putOut_length _ _ _ _, ofDecoder_code f s t input room, used, hinput, ?_, ?_⟩
    · show feed f s (consumed ++ used) = ((putOut f t.1 t.2 room input).1.1,
        (given ++ (putOut f t.1 t.2 room input).2.1) ++ (putOut f t.1 t.2 room input).1.2)
      rw [feed_append, hfeed]
      show ((feed f t.1 used).1, (given ++ t.2) ++ (feed f t.1 used).2) = _
      rw [hstate, List.append_assoc, hbytes, List.append_assoc]
    · show _ ≤ (given ++ (putOut f t.1 t.2 room input).2.1).length
      rw [List.length_append]
      by_cases hused : used = []
      · rw [hused, List.append_nil]
        exact Nat.le_add_right_of_le hsettled
      · rw [settled_append s consumed hused, hfeed]
        show ((given ++ t.2) ++ settled f t.1 used).length ≤ _
        rw [List.append_assoc, List.length_append]
        exact Nat.add_le_add_left (hput hused) _
  takes := by
    intro t consumed given input room h _
    obtain ⟨hfeed, hsettled⟩ := h
    refine (putOut_rest_iff t.1 t.2 room input).trans ?_
    by_cases hinput : input = []
    · rw [hinput, List.append_nil]
      exact iff_of_true (.inl rfl) (Nat.le_add_right_of_le hsettled)
    · rw [or_iff_right hinput, settled_append s consumed hinput, hfeed]
      show _ ↔ ((given ++ t.2) ++ settled f t.1 input).length ≤ _
      have hlength : (given ++ (t.2 ++ settled f t.1 input)).length =
          given.length + (t.2 ++ settled f t.1 input).length := List.length_append
      rw [List.append_assoc, hlength, Nat.add_le_add_iff_left]
  fills := by
    intro t consumed given input room h _ hrest
    show given ++ (putOut f t.1 t.2 room input).2.1 = (feed f s (consumed ++ input)).2.take _
    rw [putOut_output t.1 t.2 room input hrest, feed_append, h.1]
    show _ = ((given ++ t.2) ++ (feed f t.1 input).2).take _
    rw [List.append_assoc, List.take_length_add_append]

end Decoders

end Coursework.Streams
