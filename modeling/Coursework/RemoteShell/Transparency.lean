import Coursework.RemoteShell.Program
import Coursework.Streams.LiteralBlocks

/-!
# What reaches the shell

Both modes send the typed bytes through a codec (`coding`), raw transmission through the one that
changes nothing. `Delivers` is the invariant of a run: what was sent and not received is on the
wire, and the shell has the decoded bytes. `transparent_iff` says when these are the typed ones:
with `--compress`, a read of more than one byte makes the client send bytes of its stack.
Vocabulary and scope: `Coursework.RemoteShell.Program`.
-/

namespace Coursework.RemoteShell

open LogClient Streams

variable {σ τ : Type}

/-- A carriage return goes to the shell as a line feed. -/
def crToLf (byte : UInt8) : UInt8 :=
  if byte = crChar then lfChar else byte

theorem crToLf_eq (b : UInt8) : crToLf b = if b = crChar ∨ b = lfChar then lfChar else b := by
  by_cases hcr : b = crChar
  · rw [crToLf, if_pos hcr, if_pos (.inl hcr)]
  · by_cases hlf : b = lfChar
    · rw [crToLf, if_neg hcr, if_pos (.inr hlf), hlf]
    · rw [crToLf, if_neg hcr, if_neg (not_or.mpr ⟨hcr, hlf⟩)]

theorem crToLf_crToLf (b : UInt8) : crToLf (crToLf b) = crToLf b := by
  by_cases hcr : b = crChar
  · rw [crToLf, crToLf, if_pos hcr]
    rfl
  · have hb : crToLf b = b := if_neg hcr
    rw [hb, hb]

/-- The bytes of the reads from the keyboard. -/
def typed : List Event → List (List UInt8)
  | [] => []
  | .keyboard read :: events => read.readBuf :: typed events
  | .socket _ :: events => typed events

/-- The bytes in the pipe of the shell are the typed ones, and all of them once nothing is under
way. -/
structure Transparent (session : Session σ τ) (bytes : List UInt8) : Prop where
  inOrder : session.server.toShell <+: bytes.map crToLf
  complete : session.wire = [] → session.server.toShell = bytes.map crToLf

/-- A byte without an effect of its own. -/
def IsPlain (byte : UInt8) : Prop :=
  byte ≠ ctrlC ∧ byte ≠ ctrlD

section Codings

variable (zlib : Codec σ τ UInt8) (compress : Bool)

/-- The codec of a mode. -/
def coding : Codec σ τ UInt8 :=
  if compress then zlib else Codec.copying zlib.outbound zlib.inbound

theorem lossless_coding {zlib : Codec σ τ UInt8} (h : zlib.Lossless) :
    (coding zlib compress).Lossless := by
  cases compress with
  | false => exact Codec.lossless_copying _ _
  | true => exact h

/-- What the client encodes for a key. -/
def payload (readLen : Nat) (keybdChar : UInt8) (behind : Nat → UInt8) : List UInt8 :=
  if compress then keybdChar :: (List.range (readLen - 1)).map behind else [crToLf keybdChar]

/-- What the client encodes for a read. -/
def payloads (read : Read) : List (List UInt8) :=
  read.readBuf.zipIdx.map fun (keybdChar, i) =>
    payload compress read.readBuf.length keybdChar (read.behind i)

/-- What the client encodes in a run. -/
def inputs : List Event → List (List UInt8)
  | [] => []
  | .keyboard read :: events => payloads compress read ++ inputs events
  | .socket _ :: events => inputs events

theorem sendKey_eq (readLen : Nat) (session : Session σ τ) (keybdChar : UInt8)
    (behind : Nat → UInt8) :
    sendKey zlib compress readLen session keybdChar behind =
      { session with
        outbound := ((coding zlib compress).encode session.outbound
          (payload compress readLen keybdChar behind)).1
        wire := session.wire ++ ((coding zlib compress).encode session.outbound
          (payload compress readLen keybdChar behind)).2 } := by
  cases compress with
  | true =>
      rw [sendKey]
      split <;> rfl
  | false =>
      -- both line ends are sent as a line feed
      rw [payload, if_neg Bool.false_ne_true, crToLf_eq, sendKey]
      split <;> rfl

/-- The server forwards what it decodes. -/
theorem receive_eq (server : Server τ) (packet : List UInt8) (h : server.running = true) :
    server.receive zlib compress packet =
      ((coding zlib compress).decode server.inbound packet).2.foldl Server.forward
        { server with inbound := ((coding zlib compress).decode server.inbound packet).1 } := by
  rw [Server.receive, if_neg (by simp [h])]
  cases compress <;> rfl

end Codings

/-- A plain byte goes to the pipe. -/
theorem forward_plain (inbound : τ) (toShell : List UInt8) {b : UInt8} (hplain : IsPlain b) :
    (⟨inbound, true, true, toShell⟩ : Server τ).forward b =
      ⟨inbound, true, true, toShell ++ [crToLf b]⟩ := by
  rw [Server.forward, if_neg (by simp), crToLf_eq]
  split
  case isTrue => rfl
  case isFalse =>
    rw [if_neg hplain.2, if_neg hplain.1]
    rfl

/-- Plain bytes go to the pipe in order. -/
theorem foldl_forward (inbound : τ) (toShell : List UInt8) {bytes : List UInt8}
    (hplain : ∀ b ∈ bytes, IsPlain b) :
    bytes.foldl Server.forward ⟨inbound, true, true, toShell⟩ =
      ⟨inbound, true, true, toShell ++ bytes.map crToLf⟩ := by
  induction bytes generalizing toShell with
  | nil => simp
  | cons b bytes ih =>
      rw [List.foldl_cons, forward_plain inbound toShell (hplain b List.mem_cons_self),
        ih _ fun c hc => hplain c (List.mem_cons_of_mem b hc)]
      simp

section Runs

variable (zlib : Codec σ τ UInt8) (compress : Bool)

/-- What was encoded is on the wire or was received in pieces, and the shell has what these decode
to. -/
structure Delivers (session : Session σ τ) (sent pieces : List (List UInt8)) : Prop where
  encoded : (coding zlib compress).encoded sent =
    (session.outbound, pieces.flatten ++ session.wire)
  decoded : session.server = ⟨((coding zlib compress).decoded pieces).1, true, true,
    ((coding zlib compress).decoded pieces).2.map crToLf⟩

variable {zlib compress} {session : Session σ τ} {sent pieces : List (List UInt8)}

variable (zlib compress) in
theorem delivers_init : Delivers zlib compress (Session.init zlib) [] [] := by
  cases compress with
  | false => exact ⟨rfl, rfl⟩
  | true => exact ⟨rfl, rfl⟩

theorem Delivers.sendKey (h : Delivers zlib compress session sent pieces) (readLen : Nat)
    (keybdChar : UInt8) (behind : Nat → UInt8) :
    Delivers zlib compress (sendKey zlib compress readLen session keybdChar behind)
      (sent ++ [payload compress readLen keybdChar behind]) pieces := by
  rw [sendKey_eq]
  refine ⟨?_, h.decoded⟩
  have hencoded := h.encoded
  rw [Codec.encoded] at hencoded ⊢
  rw [feed_append, hencoded, feed_singleton]
  simp

/-- The client's loop. -/
theorem Delivers.sendKeys (h : Delivers zlib compress session sent pieces) (read : Read) :
    Delivers zlib compress (sendKeys zlib compress session read)
      (sent ++ payloads compress read) pieces := by
  unfold RemoteShell.sendKeys payloads
  induction read.readBuf.zipIdx generalizing session sent with
  | nil => simpa using h
  | cons key keys ih =>
      have hkey := ih (h.sendKey read.readBuf.length key.1 (read.behind key.2))
      simpa using hkey

/-- The shell has a beginning of what was encoded. -/
theorem Delivers.decoded_inOrder (h : Delivers zlib compress session sent pieces)
    (hzlib : zlib.Lossless) : ((coding zlib compress).decoded pieces).2 <+: sent.flatten := by
  refine (lossless_coding compress hzlib).decoded_inOrder ?_
  rw [h.encoded]
  exact List.prefix_append _ _

/-- The server handles a packet of plain bytes. -/
theorem Delivers.receive (h : Delivers zlib compress session sent pieces) (hzlib : zlib.Lossless)
    (hplain : ∀ b ∈ sent.flatten, IsPlain b) (size : Nat) :
    Delivers zlib compress
      { session with
        wire := session.wire.drop size
        server := session.server.receive zlib compress (session.wire.take size) }
      sent (pieces ++ [session.wire.take size]) := by
  have hencoded : (coding zlib compress).encoded sent = (session.outbound,
      (pieces ++ [session.wire.take size]).flatten ++ session.wire.drop size) := by
    rw [h.encoded]
    simp [List.take_append_drop]
  have hbegins : ((coding zlib compress).decoded (pieces ++ [session.wire.take size])).2 <+:
      sent.flatten := by
    refine (lossless_coding compress hzlib).decoded_inOrder ?_
    rw [hencoded]
    exact List.prefix_append _ _
  refine ⟨hencoded, ?_⟩
  have hdecoded : (coding zlib compress).decoded (pieces ++ [session.wire.take size]) =
      (((coding zlib compress).decode ((coding zlib compress).decoded pieces).1
          (session.wire.take size)).1,
        ((coding zlib compress).decoded pieces).2 ++ ((coding zlib compress).decode
          ((coding zlib compress).decoded pieces).1 (session.wire.take size)).2) := by
    rw [Codec.decoded, feed_append, feed_singleton]
    rfl
  have hrunning : session.server.running = true := by rw [h.decoded]
  rw [hdecoded] at hbegins ⊢
  show session.server.receive zlib compress _ = _
  rw [receive_eq zlib compress _ _ hrunning, h.decoded, foldl_forward, List.map_append]
  exact fun b hb => hplain b (hbegins.mem (List.mem_append_right _ hb))

/-- A run of plain bytes delivers them. -/
theorem Delivers.run (hzlib : zlib.Lossless) {events : List Event}
    (h : Delivers zlib compress session sent pieces)
    (hplain : ∀ b ∈ (sent ++ inputs compress events).flatten, IsPlain b) :
    ∃ pieces, Delivers zlib compress (events.foldl (step zlib compress) session)
      (sent ++ inputs compress events) pieces := by
  induction events generalizing session sent pieces with
  | nil => exact ⟨pieces, by simpa [inputs] using h⟩
  | cons event events ih =>
      cases event with
      | keyboard read =>
          have hstep := h.sendKeys read
          have hrun := ih hstep (by simpa [inputs] using hplain)
          simpa [inputs, step] using hrun
      | socket n =>
          have hsent : ∀ b ∈ sent.flatten, IsPlain b := by
            intro b hb
            refine hplain b ?_
            rw [List.flatten_append]
            exact List.mem_append_left _ hb
          exact ih (h.receive hzlib hsent _) hplain

/-- The shell gets what was encoded. -/
theorem transparent_inputs (hzlib : zlib.Lossless) {events : List Event}
    (hplain : ∀ b ∈ (inputs compress events).flatten, IsPlain b) :
    Transparent (RemoteShell.run zlib compress events) (inputs compress events).flatten := by
  obtain ⟨pieces, hrun⟩ := (delivers_init zlib compress).run hzlib hplain
  have hshell : (RemoteShell.run zlib compress events).server.toShell =
      ((coding zlib compress).decoded pieces).2.map crToLf := congrArg Server.toShell hrun.decoded
  constructor
  · rw [hshell]
    exact (hrun.decoded_inOrder hzlib).map _
  · intro hwire
    have hencoded : pieces.flatten =
        ((coding zlib compress).encoded (inputs compress events)).2 := by
      have h := congrArg Prod.snd hrun.encoded
      rw [List.nil_append] at h
      rw [h]
      exact (List.append_nil _).symm.trans (congrArg _ hwire.symm)
    rw [hshell, lossless_coding compress hzlib _ _ hencoded]

end Runs

section Lengths

/-- Raw, and for reads of one byte, each key is sent alone. -/
theorem flatten_payloads {compress : Bool} {read : Read}
    (h : compress = true → read.readBuf.length ≤ 1) :
    (payloads compress read).flatten.map crToLf = read.readBuf.map crToLf := by
  have hpayload (key : UInt8 × Nat) : (payload compress read.readBuf.length key.1
      (read.behind key.2)).map crToLf = [crToLf key.1] := by
    cases compress with
    | false => simp [payload, crToLf_crToLf]
    | true => simp [payload, Nat.sub_eq_zero_of_le (h rfl)]
  have hkeys : read.readBuf = read.readBuf.zipIdx.map Prod.fst := (List.zipIdx_map_fst 0 _).symm
  rw [payloads, List.map_flatten, List.map_map]
  conv_rhs => rw [hkeys, List.map_map]
  induction read.readBuf.zipIdx with
  | nil => rfl
  | cons key keys ih =>
      rw [List.map_cons, List.flatten_cons, ih]
      exact congrArg (· ++ _) (hpayload key)

/-- Raw, and for reads of one byte, the typed bytes are sent. -/
theorem flatten_inputs {compress : Bool} {events : List Event}
    (h : compress = true → ∀ read ∈ typed events, read.length ≤ 1) :
    (inputs compress events).flatten.map crToLf = (typed events).flatten.map crToLf := by
  induction events with
  | nil => rfl
  | cons event events ih =>
      cases event with
      | keyboard read =>
          have hread := flatten_payloads fun hc => h hc read.readBuf List.mem_cons_self
          have hevents := ih fun hc r hr => h hc r (List.mem_cons_of_mem _ hr)
          simp only [inputs, typed, List.flatten_append, List.flatten_cons, List.map_append, hread,
            hevents]
      | socket n => exact ih h

/-- With compression a read is sent once for each of its bytes. -/
theorem length_payloads (read : Read) :
    (payloads true read).flatten.length = read.readBuf.length * read.readBuf.length := by
  have hkeys (n : Nat) (keys : List (UInt8 × Nat)) :
      (keys.map fun (keybdChar, i) => payload true n keybdChar (read.behind i)).flatten.length =
        keys.length * (n - 1 + 1) := by
    induction keys with
    | nil => simp
    | cons key keys ih =>
        rw [List.map_cons, List.flatten_cons, List.length_append, ih, List.length_cons,
          Nat.succ_mul]
        simp [payload, Nat.add_comm]
  rw [payloads, hkeys, List.length_zipIdx]
  cases read.readBuf with
  | nil => rfl
  | cons b bytes => simp

/-- With compression a read of more than one byte makes the stream too long. -/
theorem length_inputs (events : List Event) :
    (typed events).flatten.length ≤ (inputs true events).flatten.length ∧
      ((∃ read ∈ typed events, 1 < read.length) →
        (typed events).flatten.length < (inputs true events).flatten.length) := by
  induction events with
  | nil => simp [typed, inputs]
  | cons event events ih =>
      cases event with
      | socket n => exact ih
      | keyboard read =>
          have hsquare := Nat.le_mul_self read.readBuf.length
          simp only [typed, inputs, List.flatten_cons, List.flatten_append, List.length_append,
            length_payloads]
          refine ⟨Nat.add_le_add hsquare ih.1, ?_⟩
          intro ⟨other, hother, hlt⟩
          rcases List.mem_cons.mp hother with rfl | hmem
          · have hstrict : read.readBuf.length * 1 < read.readBuf.length * read.readBuf.length :=
              Nat.mul_lt_mul_of_pos_left hlt (by omega)
            omega
          · have := ih.2 ⟨other, hmem, hlt⟩
            omega

end Lengths

section Plain

variable {compress : Bool}

theorem IsPlain.crToLf {b : UInt8} (h : IsPlain b) : IsPlain (crToLf b) := by
  rw [RemoteShell.crToLf]
  split
  · exact ⟨by decide, by decide⟩
  · exact h

/-- The bytes that are encoded for a read are plain if those on the stack are. -/
theorem plain_payloads {read : Read} (hread : ∀ b ∈ read.readBuf, IsPlain b)
    (hbehind : compress = true →
      ∀ i j, j < read.readBuf.length - 1 → IsPlain (read.behind i j)) :
    ∀ b ∈ (payloads compress read).flatten, IsPlain b := by
  intro b hb
  obtain ⟨bytes, hbytes, hb⟩ := List.mem_flatten.mp hb
  obtain ⟨⟨c, i⟩, hkey, rfl⟩ := List.mem_map.mp hbytes
  have hc : IsPlain c := hread c (List.fst_mem_of_mem_zipIdx hkey)
  cases compress with
  | false =>
      obtain rfl := List.mem_singleton.mp hb
      exact hc.crToLf
  | true =>
      rcases List.mem_cons.mp hb with rfl | hb
      · exact hc
      · obtain ⟨j, hj, rfl⟩ := List.mem_map.mp hb
        exact hbehind rfl i j (List.mem_range.mp hj)

theorem plain_inputs {events : List Event}
    (htyped : ∀ read ∈ typed events, ∀ b ∈ read, IsPlain b)
    (hbehind : compress = true → ∀ read, .keyboard read ∈ events →
      ∀ i j, j < read.readBuf.length - 1 → IsPlain (read.behind i j)) :
    ∀ b ∈ (inputs compress events).flatten, IsPlain b := by
  induction events with
  | nil => simp [inputs]
  | cons event events ih =>
      have hevents : compress = true → ∀ read, .keyboard read ∈ events →
          ∀ i j, j < read.readBuf.length - 1 → IsPlain (read.behind i j) :=
        fun hc read hread => hbehind hc read (List.mem_cons_of_mem _ hread)
      cases event with
      | socket n => exact ih htyped hevents
      | keyboard read =>
          intro b hb
          rw [inputs, List.flatten_append] at hb
          rcases List.mem_append.mp hb with hb | hb
          · exact plain_payloads (htyped _ List.mem_cons_self)
              (fun hc => hbehind hc read List.mem_cons_self) b hb
          · exact ih (fun r hr => htyped r (List.mem_cons_of_mem _ hr)) hevents b hb

theorem readBuf_mem_typed {events : List Event} {read : Read} (h : .keyboard read ∈ events) :
    read.readBuf ∈ typed events := by
  induction events with
  | nil => cases h
  | cons event events ih =>
      cases h with
      | head => exact List.mem_cons_self
      | tail _ h =>
          cases event with
          | socket n => exact ih h
          | keyboard other => exact List.mem_cons_of_mem _ (ih h)

end Plain

section Pasting

/-- The reads, with zeros on the stack. -/
def paste (reads : List (List UInt8)) : List Event :=
  reads.map fun readBuf => .keyboard ⟨readBuf, fun _ _ => 0⟩

theorem typed_paste (reads : List (List UInt8)) (n : Nat) :
    typed (paste reads ++ List.replicate n (.socket 1)) = reads := by
  induction reads with
  | nil =>
      induction n with
      | zero => rfl
      | succ n ih => exact ih
  | cons readBuf reads ih => exact congrArg (readBuf :: ·) ih

theorem behind_paste {reads : List (List UInt8)} {n : Nat} {read : Read} {i j : Nat}
    (h : .keyboard read ∈ paste reads ++ List.replicate n (.socket 1)) : read.behind i j = 0 := by
  rcases List.mem_append.mp h with h | h
  · obtain ⟨readBuf, _, heq⟩ := List.mem_map.mp h
    cases heq
    rfl
  · cases List.eq_of_mem_replicate h

variable (zlib : Codec σ τ UInt8) (compress : Bool)

/-- The server can read all that is under way. -/
theorem wire_drain (session : Session σ τ) (n : Nat) :
    ((List.replicate n (.socket 1)).foldl (step zlib compress) session).wire =
      session.wire.drop n := by
  induction n generalizing session with
  | zero => rfl
  | succ n ih =>
      rw [List.replicate_succ, List.foldl_cons, ih]
      show (session.wire.drop 1).drop n = _
      rw [List.drop_drop, Nat.add_comm]

end Pasting

/-- The shell gets the typed bytes in every run if and only if the client was started without
`--compress` or reads its keyboard byte by byte. -/
theorem transparent_iff (zlib : Codec σ τ UInt8) (hzlib : zlib.Lossless) (compress : Bool)
    (reads : List (List UInt8)) (hplain : ∀ read ∈ reads, ∀ b ∈ read, b ≠ ctrlC ∧ b ≠ ctrlD) :
    (∀ events, typed events = reads → Transparent (run zlib compress events) reads.flatten) ↔
      (compress = true → ∀ read ∈ reads, read.length ≤ 1) := by
  constructor
  case mp =>
    rintro h rfl read hread
    by_contra hlt
    generalize hn : (run zlib true (paste reads)).wire.length = n
    generalize hevents : paste reads ++ List.replicate n (.socket 1) = events
    have htyped : typed events = reads := hevents ▸ typed_paste reads n
    have hwire : (run zlib true events).wire = [] := by
      rw [← hevents, run, List.foldl_append, wire_drain, ← hn]
      exact List.drop_length
    -- the zeros of the stack are plain, so that the shell gets them, too
    have hinputs : ∀ b ∈ (inputs true events).flatten, IsPlain b := by
      refine plain_inputs (by rwa [htyped]) fun _ read hread i j _ => ?_
      rw [behind_paste (hevents ▸ hread)]
      exact ⟨by decide, by decide⟩
    have hshell := (transparent_inputs hzlib hinputs).complete hwire
    have hlength := (length_inputs events).2 ⟨read, by rwa [htyped], by omega⟩
    rw [(h events htyped).complete hwire] at hshell
    have := congrArg List.length hshell
    rw [List.length_map, List.length_map] at this
    rw [htyped] at hlength
    omega
  case mpr =>
    rintro h events rfl
    have hinputs : ∀ b ∈ (inputs compress events).flatten, IsPlain b := by
      refine plain_inputs hplain fun hc read hread i j hj => ?_
      have hle := h hc _ (readBuf_mem_typed hread)
      omega
    have htransparent := transparent_inputs hzlib hinputs
    have hflatten := flatten_inputs h
    exact ⟨hflatten ▸ htransparent.inOrder, hflatten ▸ htransparent.complete⟩

/-- The keys a and return, each read alone. -/
theorem typing_transparent :
    Transparent (run LiteralBlocks.codec true [.keyboard ⟨[0x61], fun _ _ => 0⟩, .socket 9,
      .keyboard ⟨[0x0D], fun _ _ => 0⟩, .socket 7]) [0x61, 0x0D] :=
  (transparent_iff LiteralBlocks.codec LiteralBlocks.lossless true [[0x61], [0x0D]]
    (by simp [ctrlC, ctrlD])).mpr (by simp) _ rfl

/-- The keys l and s in one read. -/
theorem pasting_not_transparent :
    ¬ Transparent (run LiteralBlocks.codec true [.keyboard ⟨[0x6C, 0x73], fun _ _ => 0⟩,
      .socket 100]) [0x6C, 0x73] := by
  intro h
  have hshell := h.complete (by decide)
  exact absurd hshell (by decide)

end Coursework.RemoteShell
