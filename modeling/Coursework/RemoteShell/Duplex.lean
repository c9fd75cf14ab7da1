import Mathlib.Data.List.TakeWhile
import Coursework.RemoteShell.Inflating
import Coursework.RemoteShell.ShellOutput
import Coursework.RemoteShell.Transparency
import Coursework.Streams.Channel

/-!
# Both directions

The main loop of `lab1b-client.c` with `get_server_data` against `echo_and_forwrd` of
`lab1b-server.c`: both sides take turns in any order, each read takes any part of what is under
way, and the shell prints what it likes. `duplex_right` is what the user and the shell can rely on,
with and without `--compress`: beginnings of the keys and of the output, and all of them once
nothing is under way, as long as the client runs and the server is not blocked (`neverBlocks_iff`
says when it never is). The loops around `inflate` and `deflate` are calls of the codec, so their
buffers are taken not to be filled; what the programs print for debugging, also on the terminal of
the client (`Bytes received` for every read), the logs and the signals to the shell are left out.
Vocabulary and scope: `Coursework.RemoteShell.Program`, `Coursework.RemoteShell.ShellOutput`.
-/

namespace Coursework.RemoteShell

open LogClient Streams

variable {σ τ : Type}

/-- The client: its streams, the echo of the keys, and what it displays of the bytes from the
server. -/
structure ClientSide (σ τ : Type) where
  outbound : σ
  inbound : τ
  echoed : List UInt8
  terminal : Terminal

/-- Both sides. The bytes under way to the client are those that the server has sent except for the
first `received`. -/
structure Duplex (σ τ : Type) where
  clientSide : ClientSide σ τ
  up : List UInt8
  forwarder : Forwarder σ τ
  received : Nat

/-- What `poll` reports to the client: a read from the keyboard, an error or hangup of the socket,
and input from the socket, of which a read takes at most so many bytes. -/
structure ClientPoll where
  keys : Option Read
  hangup : Bool
  socket : Option Nat

/-- A round of the client, or of the server: the limit of its read from the socket, what the shell
has printed, and whether the pipe of the shell reports an error or hangup. -/
inductive Turn where
  | client (poll : ClientPoll)
  | server (packet : Option Nat) (output : Option (List UInt8)) (hangup : Bool)

/-- The echo of a key. -/
def echo (keybdChar : UInt8) : List UInt8 :=
  if keybdChar = crChar ∨ keybdChar = lfChar then [crChar, lfChar] else [keybdChar]

namespace Duplex

variable (zlib : Codec σ τ UInt8) (compress : Bool)

/-- The bytes under way to the client. -/
def down (d : Duplex σ τ) : List UInt8 :=
  d.forwarder.toClient.drop d.received

/-- Before the first `poll`. -/
def init : Duplex σ τ where
  clientSide := ⟨zlib.outbound, zlib.inbound, [], ⟨true, []⟩⟩
  up := []
  forwarder := Forwarder.init zlib
  received := 0

/-- The client reads keys, echoes them and sends them. -/
def readKeys (d : Duplex σ τ) (read : Read) : Duplex σ τ :=
  let session := sendKeys zlib compress ⟨d.clientSide.outbound, d.up, d.forwarder.server⟩ read
  { d with
    clientSide := { d.clientSide with
      outbound := session.outbound
      echoed := d.clientSide.echoed ++ read.readBuf.flatMap echo }
    up := session.wire }

/-- The client exits. -/
def exitClient (d : Duplex σ τ) : Duplex σ τ :=
  { d with clientSide := { d.clientSide with
      terminal := { d.clientSide.terminal with running := false } } }

/-- `get_server_data`. Without bytes the client exits if the server has closed the connection. -/
def getServerData (d : Duplex σ τ) (n : Nat) : Duplex σ τ :=
  if d.down = [] then
    if d.forwarder.server.running then d else d.exitClient
  else
    let readBuf := d.down.take (min n readSize)
    let (inbound, shown) :=
      if compress then zlib.decode d.clientSide.inbound readBuf
      else (d.clientSide.inbound, readBuf)
    { d with
      clientSide := { d.clientSide with
        inbound := inbound
        terminal := shown.foldl Terminal.displayByte d.clientSide.terminal }
      received := d.received + readBuf.length }

/-- A round of the client's main loop. -/
def clientRound (d : Duplex σ τ) (poll : ClientPoll) : Duplex σ τ :=
  if !d.clientSide.terminal.running then d
  else
    let d :=
      match poll.keys with
      | none => d
      | some read => d.readKeys zlib compress read
    if poll.hangup then d.exitClient
    else
      match poll.socket with
      | none => d
      | some n => d.getServerData zlib compress n

/-- Whether the server goes on. -/
def serving (d : Duplex σ τ) : Bool :=
  !d.forwarder.blocked && d.forwarder.server.running

/-- A round of the server's loop. -/
def serverRound (d : Duplex σ τ) (packet : Option Nat) (output : Option (List UInt8))
    (hangup : Bool) : Duplex σ τ :=
  if !d.serving then d
  else
    let size := (packet.map (min · readSize)).getD 0
    { d with
      up := d.up.drop size
      forwarder := d.forwarder.step zlib compress
        ⟨packet.map fun _ => d.up.take size, output, hangup⟩ }

/-- A turn. -/
def step (d : Duplex σ τ) : Turn → Duplex σ τ
  | .client poll => d.clientRound zlib compress poll
  | .server packet output hangup => d.serverRound zlib compress packet output hangup

/-- A run. -/
def run (turns : List Turn) : Duplex σ τ :=
  turns.foldl (step zlib compress) (init zlib)

end Duplex

/-! ## What has to be shown -/

/-- The reads from the keyboard. -/
def keyReads : List Turn → List Read
  | [] => []
  | .client ⟨some read, _, _⟩ :: turns => read :: keyReads turns
  | _ :: turns => keyReads turns

/-- What the shell prints. -/
def printed : List Turn → List (List UInt8)
  | [] => []
  | .server _ (some output) _ :: turns => output :: printed turns
  | _ :: turns => printed turns

/-- What the shell gets for keys: carriage returns are line feeds, a ^C is left out, and a ^D is the
end. -/
def shellInput (keys : List UInt8) : List UInt8 :=
  ((keys.map crToLf).takeWhile (· ≠ ctrlD)).filter (· ≠ ctrlC)

/-- What is displayed for the output of the shell: up to a ^D, with two bytes for a line feed. -/
def display (output : List UInt8) : List UInt8 :=
  expand (output.takeWhile (· ≠ ctrlD))

/-- The keys `got` have reached the server. The second ^D ends it. -/
structure Reaches (server : Server τ) (got : List UInt8) : Prop where
  toShell : server.toShell = shellInput got
  pipeOpen : server.pipeOpen = true ↔ ctrlD ∉ got
  ended : server.running = true → got.count ctrlD < 2

/-- The output `seen` has reached the client. A ^D ends it. -/
structure Shows (terminal : Terminal) (seen : List UInt8) : Prop where
  displayed : terminal.display = display seen
  ended : terminal.running = true → ctrlD ∉ seen

/-- A beginning of the typed keys has reached the server and a beginning of the output the client,
all of it if nothing is under way and both sides run; the client has echoed the keys. -/
structure Duplex.Right (d : Duplex σ τ) (typed output : List UInt8) : Prop where
  upward : ∃ got, Reaches d.forwarder.server got ∧ got <+: typed ∧
    (d.clientSide.terminal.running = true → d.up = [] → got = typed)
  downward : ∃ seen, Shows d.clientSide.terminal seen ∧ seen <+: output ∧
    (d.serving = true → d.down = [] → seen = output)
  echoed : d.clientSide.echoed <+: typed.flatMap echo ∧
    (d.clientSide.terminal.running = true → d.clientSide.echoed = typed.flatMap echo)

section Bytes

variable {got seen bytes : List UInt8} {b : UInt8} {server : Server τ} {terminal : Terminal}

/-! ## Keys -/

theorem crToLf_eq_ctrlD_iff : crToLf b = ctrlD ↔ b = ctrlD := by
  rw [crToLf_eq]
  split
  case isTrue h =>
    rcases h with rfl | rfl
    · exact iff_of_false (by decide) (by decide)
    · exact iff_of_false (by decide) (by decide)
  case isFalse => exact Iff.rfl

theorem ctrlD_mem_map (got : List UInt8) : ctrlD ∈ got.map crToLf ↔ ctrlD ∈ got := by
  rw [List.mem_map]
  constructor
  · rintro ⟨b, hb, heq⟩
    rwa [crToLf_eq_ctrlD_iff.1 heq] at hb
  · exact fun h => ⟨ctrlD, h, rfl⟩

theorem count_map_crToLf (got : List UInt8) : (got.map crToLf).count ctrlD = got.count ctrlD := by
  rw [List.count_eq_countP, List.countP_map, List.count_eq_countP]
  refine List.countP_congr fun b _ => ?_
  simp only [Function.comp_apply, beq_iff_eq, crToLf_eq_ctrlD_iff]

theorem ctrlD_mem_concat (h : b ≠ ctrlD) : ctrlD ∉ bytes ++ [b] ↔ ctrlD ∉ bytes := by
  rw [List.mem_append, List.mem_singleton, not_or]
  exact and_iff_left (Ne.symm h)

theorem count_concat_of_ne (h : b ≠ ctrlD) : (bytes ++ [b]).count ctrlD = bytes.count ctrlD := by
  rw [List.count_append, List.count_singleton]
  simp [h]

/-- Behind a ^D nothing counts. -/
theorem takeWhile_concat_of_mem (h : ctrlD ∈ bytes) (b : UInt8) :
    (bytes ++ [b]).takeWhile (· ≠ ctrlD) = bytes.takeWhile (· ≠ ctrlD) := by
  obtain ⟨front, back, rfl, hfront⟩ := List.eq_append_cons_of_mem h
  have hne : ∀ c ∈ front, decide (c ≠ ctrlD) = true := fun c hc =>
    decide_eq_true (ne_of_mem_of_not_mem hc hfront)
  rw [List.append_assoc, List.takeWhile_append_of_pos hne, List.takeWhile_append_of_pos hne]
  simp

/-- Without one everything does, up to the next. -/
theorem takeWhile_concat (h : ctrlD ∉ bytes) (b : UInt8) :
    (bytes ++ [b]).takeWhile (· ≠ ctrlD) = bytes ++ if b = ctrlD then [] else [b] := by
  have hne : ∀ c ∈ bytes, decide (c ≠ ctrlD) = true := fun c hc =>
    decide_eq_true (ne_of_mem_of_not_mem hc h)
  rw [List.takeWhile_append_of_pos hne]
  by_cases hb : b = ctrlD <;> simp [hb]

theorem shellInput_concat_of_mem (h : ctrlD ∈ got) (b : UInt8) :
    shellInput (got ++ [b]) = shellInput got := by
  rw [shellInput, List.map_append, List.map_singleton,
    takeWhile_concat_of_mem ((ctrlD_mem_map got).2 h), shellInput]

theorem shellInput_concat (h : ctrlD ∉ got) (b : UInt8) : shellInput (got ++ [b]) =
    shellInput got ++ if b = ctrlD ∨ b = ctrlC then [] else [crToLf b] := by
  have hmap := mt (ctrlD_mem_map got).1 h
  have hall : (got.map crToLf).takeWhile (· ≠ ctrlD) = got.map crToLf :=
    List.takeWhile_eq_self_iff.2 fun c hc => decide_eq_true (ne_of_mem_of_not_mem hc hmap)
  rw [shellInput, List.map_append, List.map_singleton, takeWhile_concat hmap, List.filter_append,
    shellInput, hall]
  congr 1
  by_cases hd : b = ctrlD
  · rw [if_pos (crToLf_eq_ctrlD_iff.2 hd), if_pos (.inl hd)]
    rfl
  · rw [if_neg (mt crToLf_eq_ctrlD_iff.1 hd)]
    by_cases hc : b = ctrlC
    · subst hc
      rfl
    · have hne : crToLf b ≠ ctrlC := by
        rw [crToLf]
        split
        · decide
        · exact hc
      rw [if_neg (not_or.2 ⟨hd, hc⟩), List.filter_singleton]
      simp [hne]

/-- The server writes a byte to the pipe of the shell, unless a ^D has closed it. -/
theorem Reaches.write (h : Reaches server got) (hrun : server.running = true) (hb : b ≠ ctrlD)
    (hb' : b ≠ ctrlC) : Reaches (server.write (crToLf b)) (got ++ [b]) ∧
      (server.write (crToLf b)).running = true := by
  have hmem : ctrlD ∉ got ++ [b] ↔ ctrlD ∉ got := ctrlD_mem_concat hb
  have hended : server.running = true → (got ++ [b]).count ctrlD < 2 := fun hr =>
    (count_concat_of_ne hb).symm ▸ h.ended hr
  by_cases hopen : server.pipeOpen = true
  · rw [Server.write, if_pos hopen]
    refine ⟨⟨?_, h.pipeOpen.trans hmem.symm, hended⟩, hrun⟩
    rw [shellInput_concat (h.pipeOpen.1 hopen), if_neg (not_or.2 ⟨hb, hb'⟩)]
    exact congrArg (· ++ [crToLf b]) h.toShell
  · rw [Server.write, if_neg hopen]
    refine ⟨⟨?_, h.pipeOpen.trans hmem.symm, hended⟩, hrun⟩
    rw [shellInput_concat_of_mem (not_not.1 (mt h.pipeOpen.2 hopen))]
    exact h.toShell

/-- A key reaches the server. -/
theorem Reaches.forward (h : Reaches server got) (hgoes : server.running = true ∨ ctrlD ∈ got)
    (b : UInt8) : Reaches (server.forward b) (got ++ [b]) ∧
      ((server.forward b).running = true ∨ ctrlD ∈ got ++ [b]) := by
  by_cases hrun : server.running = true
  swap
  · -- the server has ended in this packet
    have hmem := hgoes.resolve_left hrun
    have hmem' : ctrlD ∈ got ++ [b] := List.mem_append_left _ hmem
    rw [Server.forward, if_pos (by simpa using hrun)]
    refine ⟨⟨?_, ?_, fun hr => absurd hr hrun⟩, .inr hmem'⟩
    · rw [shellInput_concat_of_mem hmem, h.toShell]
    · exact h.pipeOpen.trans (iff_of_false (not_not_intro hmem) (not_not_intro hmem'))
  rw [Server.forward, if_neg (by simpa using hrun)]
  by_cases hline : b = crChar ∨ b = lfChar
  · rw [if_pos hline]
    have hlf : crToLf b = lfChar := by rw [crToLf_eq, if_pos hline]
    have hwrite := h.write hrun (b := b) (by rcases hline with rfl | rfl <;> decide)
      (by rcases hline with rfl | rfl <;> decide)
    rw [hlf] at hwrite
    exact ⟨hwrite.1, .inl hwrite.2⟩
  rw [if_neg hline]
  by_cases hend : b = ctrlD
  · subst hend
    have hmem : ctrlD ∈ got ++ [ctrlD] := by simp
    have hcount : (got ++ [ctrlD]).count ctrlD = got.count ctrlD + 1 := by
      rw [List.count_append, List.count_singleton_self]
    rw [if_pos rfl]
    by_cases hopen : server.pipeOpen = true
    · have hnone := h.pipeOpen.1 hopen
      rw [if_pos hopen]
      refine ⟨⟨?_, iff_of_false Bool.false_ne_true (not_not_intro hmem), fun _ => ?_⟩, .inr hmem⟩
      · rw [shellInput_concat hnone, if_pos (.inl rfl), List.append_nil]
        exact h.toShell
      · rw [hcount, List.count_eq_zero.2 hnone]
        exact Nat.lt_succ_self 1
    · have hsome := not_not.1 (mt h.pipeOpen.2 hopen)
      rw [if_neg hopen]
      refine ⟨⟨?_, iff_of_false hopen (not_not_intro hmem), fun hr =>
        absurd hr Bool.false_ne_true⟩, .inr hmem⟩
      rw [shellInput_concat_of_mem hsome]
      exact h.toShell
  rw [if_neg hend]
  by_cases hint : b = ctrlC
  · subst hint
    rw [if_pos rfl]
    refine ⟨⟨?_, h.pipeOpen.trans (ctrlD_mem_concat hend).symm, fun hr =>
      (count_concat_of_ne hend).symm ▸ h.ended hr⟩, .inl hrun⟩
    by_cases hd : ctrlD ∈ got
    · rw [shellInput_concat_of_mem hd, h.toShell]
    · rw [shellInput_concat hd, if_pos (.inr rfl), List.append_nil, h.toShell]
  · rw [if_neg hint]
    have hwrite := h.write hrun hend hint
    have hsame : crToLf b = b := by rw [crToLf_eq, if_neg hline]
    rw [hsame] at hwrite
    exact ⟨hwrite.1, .inl hwrite.2⟩

/-- A packet reaches the server. -/
theorem Reaches.packet (h : Reaches server got) (hgoes : server.running = true ∨ ctrlD ∈ got)
    (bytes : List UInt8) : Reaches (bytes.foldl Server.forward server) (got ++ bytes) := by
  induction bytes generalizing server got with
  | nil => rwa [List.append_nil]
  | cons b bytes ih =>
      obtain ⟨hstep, hnext⟩ := h.forward hgoes b
      have hrest := ih hstep hnext
      rwa [List.append_assoc] at hrest

theorem forward_inbound (server : Server τ) (bytes : List UInt8) :
    (bytes.foldl Server.forward server).inbound = server.inbound := by
  induction bytes generalizing server with
  | nil => rfl
  | cons b bytes ih =>
      rw [List.foldl_cons, ih]
      unfold Server.forward Server.write
      split_ifs <;> rfl

/-- Only the line ends differ. -/
theorem Reaches.congr {got' : List UInt8} (h : Reaches server got)
    (hsame : got.map crToLf = got'.map crToLf) : Reaches server got' := by
  refine ⟨?_, ?_, fun hr => ?_⟩
  · rw [h.toShell, shellInput, hsame, shellInput]
  · rw [h.pipeOpen, ← ctrlD_mem_map, hsame, ctrlD_mem_map]
  · rw [← count_map_crToLf, ← hsame, count_map_crToLf]
    exact h.ended hr

/-! ## Output -/

/-- A byte is displayed. -/
theorem Shows.displayByte (h : Shows terminal seen)
    (hgoes : terminal.running = true ∨ ctrlD ∈ seen) (b : UInt8) :
    Shows (terminal.displayByte b) (seen ++ [b]) ∧
      ((terminal.displayByte b).running = true ∨ ctrlD ∈ seen ++ [b]) := by
  by_cases hrun : terminal.running = true
  swap
  · have hmem := hgoes.resolve_left hrun
    rw [Terminal.displayByte, if_pos (by simpa using hrun)]
    refine ⟨⟨?_, fun hr => absurd hr hrun⟩, .inr (List.mem_append_left _ hmem)⟩
    rw [display, takeWhile_concat_of_mem hmem, h.displayed, display]
  have hnone := h.ended hrun
  have hall : seen.takeWhile (· ≠ ctrlD) = seen :=
    List.takeWhile_eq_self_iff.2 fun c hc => decide_eq_true (ne_of_mem_of_not_mem hc hnone)
  have hold : terminal.display = expand seen := by rw [h.displayed, display, hall]
  rw [Terminal.displayByte, if_neg (by simpa using hrun)]
  by_cases hend : b = ctrlD
  · subst hend
    have hmem : ctrlD ∈ seen ++ [ctrlD] := by simp
    rw [if_pos rfl]
    refine ⟨⟨?_, fun hr => absurd hr Bool.false_ne_true⟩, .inr hmem⟩
    rw [display, takeWhile_concat hnone, if_pos rfl, List.append_nil]
    exact hold
  have hmem : ctrlD ∉ seen ++ [b] := (ctrlD_mem_concat hend).2 hnone
  have hnew : display (seen ++ [b]) = expand seen ++ expand [b] := by
    rw [display, takeWhile_concat hnone, if_neg hend, expand_append]
  rw [if_neg hend]
  by_cases hline : b = lfChar
  · subst hline
    rw [if_pos rfl]
    refine ⟨⟨?_, fun _ => hmem⟩, .inl hrun⟩
    rw [hnew, ← hold]
    rfl
  · have hsingle : expand [b] = [b] := by simp [expand, hline]
    rw [if_neg hline]
    refine ⟨⟨?_, fun _ => hmem⟩, .inl hrun⟩
    rw [hnew, hsingle, ← hold]

/-- What was read is displayed. -/
theorem Shows.read (h : Shows terminal seen) (hgoes : terminal.running = true ∨ ctrlD ∈ seen)
    (bytes : List UInt8) :
    Shows (bytes.foldl Terminal.displayByte terminal) (seen ++ bytes) := by
  induction bytes generalizing terminal seen with
  | nil => rwa [List.append_nil]
  | cons b bytes ih =>
      obtain ⟨hstep, hnext⟩ := h.displayByte hgoes b
      have hrest := ih hstep hnext
      rwa [List.append_assoc] at hrest

end Bytes

section Turns

variable {zlib : Codec σ τ UInt8} {compress : Bool} {d : Duplex σ τ}
variable {reads : List Read} {outputs packets pieces : List (List UInt8)}

variable (zlib compress) in
/-- The keys of `reads` were sent, and what is not under way has reached the server. -/
structure Upward (d : Duplex σ τ) (reads : List Read) (packets : List (List UInt8)) : Prop where
  carries : (coding zlib compress).Carries (reads.flatMap (payloads compress)) packets
    d.clientSide.outbound d.up d.forwarder.server.inbound
  reaches : Reaches d.forwarder.server ((coding zlib compress).decoded packets).2
  echoed : d.clientSide.echoed = (reads.flatMap (·.readBuf)).flatMap echo

variable (zlib compress) in
/-- `outputs` was sent, and what is not under way is displayed. -/
structure Downward (d : Duplex σ τ) (outputs pieces : List (List UInt8)) : Prop where
  carries : (coding zlib compress).Carries outputs pieces d.forwarder.outbound d.down
    d.clientSide.inbound
  shows : Shows d.clientSide.terminal ((coding zlib compress).decoded pieces).2
  received_le : d.received ≤ d.forwarder.toClient.length

/-! ## The client -/

/-- The client's loop over the keys. -/
theorem carries_sendKeys (session : Session σ τ) {sent : List (List UInt8)} {inbound : τ}
    (h : (coding zlib compress).Carries sent packets session.outbound session.wire inbound)
    (read : Read) :
    (coding zlib compress).Carries (sent ++ payloads compress read) packets
      (sendKeys zlib compress session read).outbound
      (sendKeys zlib compress session read).wire inbound := by
  unfold sendKeys payloads
  induction read.readBuf.zipIdx generalizing session sent with
  | nil => simpa using h
  | cons key keys ih =>
      generalize hinput : payload compress read.readBuf.length key.1 (read.behind key.2) = input
      have hkey := h.send input
      have hstep : (coding zlib compress).Carries (sent ++ [input]) packets
          (sendKey zlib compress read.readBuf.length session key.1 (read.behind key.2)).outbound
          (sendKey zlib compress read.readBuf.length session key.1 (read.behind key.2)).wire
          inbound := by
        rw [sendKey_eq, hinput]
        exact hkey
      simpa [hinput] using ih _ hstep

theorem Upward.readKeys (h : Upward zlib compress d reads packets) (read : Read) :
    Upward zlib compress (d.readKeys zlib compress read) (reads ++ [read]) packets := by
  refine ⟨?_, h.reaches, ?_⟩
  · rw [List.flatMap_append, List.flatMap_singleton]
    exact carries_sendKeys ⟨d.clientSide.outbound, d.up, d.forwarder.server⟩ h.carries read
  · show d.clientSide.echoed ++ read.readBuf.flatMap echo = _
    rw [h.echoed, List.flatMap_append, List.flatMap_append, List.flatMap_singleton]

/-- The bytes of a read. -/
theorem Downward.getServerData (h : Downward zlib compress d outputs pieces)
    (hrun : d.clientSide.terminal.running = true) (n : Nat) :
    ∃ pieces, Downward zlib compress (d.getServerData zlib compress n) outputs pieces := by
  unfold Duplex.getServerData
  split
  · split
    · exact ⟨pieces, h⟩
    · exact ⟨pieces, h.carries, ⟨h.shows.displayed, nofun⟩, h.received_le⟩
  generalize min n readSize = size
  have hdown : d.down.length = d.forwarder.toClient.length - d.received := List.length_drop
  have hlength : (d.down.take size).length = min size d.down.length := List.length_take
  have hle := h.received_le
  have hcarries := h.carries.receive size
  have hrest : d.forwarder.toClient.drop (d.received + (d.down.take size).length) =
      d.down.drop size := by
    rw [← List.drop_drop, hlength]
    exact List.drop_eq_drop_min.symm
  have hshows := h.shows.read (.inl hrun)
    ((coding zlib compress).decode d.clientSide.inbound (d.down.take size)).2
  rw [← h.carries.decoded_receive] at hshows
  refine ⟨pieces ++ [d.down.take size], ?_, ?_, ?_⟩
  · show (coding zlib compress).Carries _ _ _ (d.forwarder.toClient.drop _) _
    rw [hrest]
    cases compress <;> exact hcarries
  · cases compress <;> exact hshows
  · show d.received + (d.down.take size).length ≤ d.forwarder.toClient.length
    omega

/-- The other direction does not depend on it. -/
theorem Upward.getServerData (h : Upward zlib compress d reads packets) (n : Nat) :
    Upward zlib compress (d.getServerData zlib compress n) reads packets := by
  unfold Duplex.getServerData
  split
  · split
    · exact h
    · exact ⟨h.carries, h.reaches, h.echoed⟩
  · exact ⟨h.carries, h.reaches, h.echoed⟩

theorem getServerData_forwarder (n : Nat) :
    (d.getServerData zlib compress n).forwarder = d.forwarder := by
  unfold Duplex.getServerData
  split
  · split <;> rfl
  · rfl

/-- A round of the client sends its keys and displays what it reads. -/
theorem clientRound_right (hup : Upward zlib compress d reads packets)
    (hdown : Downward zlib compress d outputs pieces)
    (hrun : d.clientSide.terminal.running = true) (poll : ClientPoll) :
    (d.clientRound zlib compress poll).forwarder = d.forwarder ∧
      Upward zlib compress (d.clientRound zlib compress poll) (reads ++ poll.keys.toList) packets ∧
      ∃ pieces, Downward zlib compress (d.clientRound zlib compress poll) outputs pieces := by
  unfold Duplex.clientRound
  rw [if_neg (by simpa using hrun)]
  have hkeys : ∀ after : Duplex σ τ, (match poll.keys with
      | none => d
      | some read => d.readKeys zlib compress read) = after →
      after.forwarder = d.forwarder ∧
        Upward zlib compress after (reads ++ poll.keys.toList) packets ∧
        Downward zlib compress after outputs pieces ∧
        after.clientSide.terminal.running = true := by
    rintro after rfl
    cases poll.keys with
    | none => exact ⟨rfl, by simpa using hup, hdown, hrun⟩
    | some read =>
        exact ⟨rfl, hup.readKeys read, ⟨hdown.carries, hdown.shows, hdown.received_le⟩, hrun⟩
  generalize hafter : (match poll.keys with
      | none => d
      | some read => d.readKeys zlib compress read) = after
  obtain ⟨hforwarder, hup, hdown, hrun⟩ := hkeys after hafter
  simp only
  split
  · exact ⟨hforwarder, ⟨hup.carries, hup.reaches, hup.echoed⟩, pieces, hdown.carries,
      ⟨hdown.shows.displayed, nofun⟩, hdown.received_le⟩
  · split
    · exact ⟨hforwarder, hup, pieces, hdown⟩
    · next n _ =>
      exact ⟨(getServerData_forwarder n).trans hforwarder, hup.getServerData n,
        hdown.getServerData hrun n⟩

/-! ## The server -/

/-- A packet from the socket. -/
theorem Upward.poll (h : Upward zlib compress d reads packets)
    (hrun : d.forwarder.server.running = true) (packet : Option Nat) (output : Option (List UInt8))
    (hangup : Bool) :
    ∃ packets, (coding zlib compress).Carries (reads.flatMap (payloads compress)) packets
        d.clientSide.outbound (d.up.drop ((packet.map (min · readSize)).getD 0))
        (d.forwarder.server.poll zlib compress ⟨packet.map fun _ =>
          d.up.take ((packet.map (min · readSize)).getD 0), output, hangup⟩).inbound ∧
      Reaches (d.forwarder.server.poll zlib compress ⟨packet.map fun _ =>
          d.up.take ((packet.map (min · readSize)).getD 0), output, hangup⟩)
        ((coding zlib compress).decoded packets).2 := by
  cases packet with
  | none => exact ⟨packets, h.carries, h.reaches⟩
  | some n =>
      generalize hsize : ((some n).map (min · readSize)).getD 0 = size
      refine ⟨packets ++ [d.up.take size], ?_⟩
      show (coding zlib compress).Carries _ _ _ _
          (d.forwarder.server.receive zlib compress (d.up.take size)).inbound ∧
        Reaches (d.forwarder.server.receive zlib compress (d.up.take size)) _
      rw [receive_eq zlib compress _ _ hrun, forward_inbound, h.carries.decoded_receive]
      have hreaches : Reaches { d.forwarder.server with
          inbound := ((coding zlib compress).decode d.forwarder.server.inbound
            (d.up.take size)).1 } ((coding zlib compress).decoded packets).2 :=
        ⟨h.reaches.toShell, h.reaches.pipeOpen, h.reaches.ended⟩
      exact ⟨h.carries.receive size, hreaches.packet (.inl hrun) _⟩

/-- Copying to the pipe `kerntosock` sends nothing. -/
theorem copyBytes_sends (s : Forwarder σ τ) (bytes : List UInt8) :
    (bytes.foldl Forwarder.copyByte s).outbound = s.outbound ∧
      (bytes.foldl Forwarder.copyByte s).toClient = s.toClient := by
  induction bytes generalizing s with
  | nil => exact ⟨rfl, rfl⟩
  | cons b bytes ih =>
      rw [List.foldl_cons, (ih _).1, (ih _).2, copyByte_eq]
      unfold Forwarder.dprintf
      split_ifs <;> exact ⟨rfl, rfl⟩

/-- The output is sent, or the server is blocked. -/
theorem getAndForwardShellOutput_sends (s : Forwarder σ τ) (readBuf : List UInt8) :
    ((getAndForwardShellOutput zlib compress s readBuf).blocked = true ∧
        (getAndForwardShellOutput zlib compress s readBuf).outbound = s.outbound ∧
        (getAndForwardShellOutput zlib compress s readBuf).toClient = s.toClient) ∨
      ((getAndForwardShellOutput zlib compress s readBuf).outbound =
          ((coding zlib compress).encode s.outbound readBuf).1 ∧
        (getAndForwardShellOutput zlib compress s readBuf).toClient =
          s.toClient ++ ((coding zlib compress).encode s.outbound readBuf).2) := by
  obtain ⟨houtbound, htoClient⟩ := copyBytes_sends s readBuf
  unfold getAndForwardShellOutput
  simp only
  split
  case isTrue hblocked => exact .inl ⟨hblocked, houtbound, htoClient⟩
  case isFalse =>
    rw [← houtbound, ← htoClient]
    cases compress <;> exact .inr ⟨rfl, rfl⟩

variable (zlib compress) in
/-- The part of a round for the shell. -/
def Forwarder.forward (s : Forwarder σ τ) (output : Option (List UInt8)) : Forwarder σ τ :=
  match output with
  | none => s
  | some readBuf => getAndForwardShellOutput zlib compress s readBuf

/-- A part of the output is sent. -/
theorem Downward.forward (h : Downward zlib compress d outputs pieces) (server : Server τ)
    (output : Option (List UInt8)) {after : Forwarder σ τ}
    (hafter : Forwarder.forward zlib compress { d.forwarder with server := server } output =
      after) :
    ∃ sent, sent <+: output.toList ∧ (after.blocked = false → sent = output.toList) ∧
      (coding zlib compress).Carries (outputs ++ sent) pieces after.outbound
        (after.toClient.drop d.received) d.clientSide.inbound ∧
      d.received ≤ after.toClient.length := by
  have hcarries : (coding zlib compress).Carries outputs pieces d.forwarder.outbound
    (d.forwarder.toClient.drop d.received) d.clientSide.inbound := h.carries
  subst hafter
  cases output with
  | none =>
      refine ⟨[], List.nil_prefix, fun _ => rfl, ?_, h.received_le⟩
      rw [List.append_nil]
      exact hcarries
  | some readBuf =>
      rw [Forwarder.forward]
      rcases getAndForwardShellOutput_sends { d.forwarder with server := server } readBuf with
        ⟨hblocked, houtbound, htoClient⟩ | ⟨houtbound, htoClient⟩
      · rw [houtbound, htoClient]
        exact ⟨[], List.nil_prefix, fun hfree => absurd hfree (by simp [hblocked]),
          by simpa using hcarries, h.received_le⟩
      · rw [houtbound, htoClient]
        refine ⟨[readBuf], List.prefix_rfl, fun _ => rfl, ?_, ?_⟩
        · rw [List.drop_append_of_le_length h.received_le]
          exact hcarries.send readBuf
        · rw [List.length_append]
          exact Nat.le_add_right_of_le h.received_le

theorem forward_server (s : Forwarder σ τ) (output : Option (List UInt8)) :
    (Forwarder.forward zlib compress s output).server = s.server := by
  cases output with
  | none => rfl
  | some readBuf => exact (getAndForwardShellOutput_keeps zlib compress s readBuf).1

/-- What a round of the loop does: it receives a packet, and if the server still runs, it forwards
the output; then the server may exit. -/
theorem step_cases (s : Forwarder σ τ) (hserving : (!s.blocked && s.server.running) = true)
    (poll : ServerPoll) {server : Server τ} (hserver : s.server.poll zlib compress poll = server) :
    (server.running = false ∧ s.step zlib compress poll = { s with server := server }) ∨
      (server.running = true ∧ ∃ running, s.step zlib compress poll =
        { Forwarder.forward zlib compress { s with server := server } poll.output with
          server := { server with running := running } }) := by
  have hguard : (s.blocked || !s.server.running) = false := by
    rw [← Bool.not_not (_ || _), Bool.not_or, Bool.not_not, hserving, Bool.not_true]
  have hstep : s.step zlib compress poll =
      if s.blocked || !s.server.running then s
      else if !server.running then { s with server := server }
      else
        let after := Forwarder.forward zlib compress { s with server := server } poll.output
        if after.blocked then after
        else if poll.hangup then { after with server := { after.server with running := false } }
        else after := by
    subst hserver
    rfl
  rw [hstep, hguard, if_neg Bool.false_ne_true]
  cases hruns : server.running with
  | false => exact .inl ⟨rfl, rfl⟩
  | true =>
      have hsame : (Forwarder.forward zlib compress { s with server := server }
          poll.output).server = server := forward_server _ _
      generalize Forwarder.forward zlib compress { s with server := server } poll.output = after
        at hsame
      subst hsame
      refine .inr ⟨rfl, ?_⟩
      rw [Bool.not_true, if_neg Bool.false_ne_true]
      simp only
      split_ifs
      · exact ⟨after.server.running, rfl⟩
      · exact ⟨false, rfl⟩
      · exact ⟨after.server.running, rfl⟩

/-- A round of the server receives keys and sends output. -/
theorem serverRound_right (hup : Upward zlib compress d reads packets)
    (hdown : Downward zlib compress d outputs pieces) (hserving : d.serving = true)
    (packet : Option Nat) (output : Option (List UInt8)) (hangup : Bool) :
    (d.serverRound zlib compress packet output hangup).clientSide = d.clientSide ∧
      (∃ packets, Upward zlib compress (d.serverRound zlib compress packet output hangup) reads
        packets) ∧
      ∃ sent, sent <+: output.toList ∧
        ((d.serverRound zlib compress packet output hangup).serving = true →
          sent = output.toList) ∧
        Downward zlib compress (d.serverRound zlib compress packet output hangup)
          (outputs ++ sent) pieces := by
  have hrun : d.forwarder.server.running = true := (Bool.and_eq_true_iff.1 hserving).2
  obtain ⟨packets', hcarries, hreaches⟩ := hup.poll hrun packet output hangup
  have hround : d.serverRound zlib compress packet output hangup =
      { d with
        up := d.up.drop ((packet.map (min · readSize)).getD 0)
        forwarder := d.forwarder.step zlib compress ⟨packet.map fun _ =>
          d.up.take ((packet.map (min · readSize)).getD 0), output, hangup⟩ } :=
    if_neg (by simpa using hserving)
  rw [hround]
  generalize (packet.map (min · readSize)).getD 0 = size at hcarries hreaches ⊢
  generalize hpoll : (⟨packet.map fun _ => d.up.take size, output, hangup⟩ : ServerPoll) = poll
    at hcarries hreaches ⊢
  have houtput : poll.output = output := by rw [← hpoll]
  generalize hserver : d.forwarder.server.poll zlib compress poll = server at hcarries hreaches
  rcases step_cases d.forwarder hserving poll hserver with ⟨hstopped, hstep⟩ |
    ⟨hruns, running, hstep⟩
  · rw [hstep]
    refine ⟨rfl, ⟨packets', hcarries, hreaches, hup.echoed⟩, [], List.nil_prefix, ?_, ?_⟩
    · simp [Duplex.serving, hstopped]
    · rw [List.append_nil]
      exact ⟨hdown.carries, hdown.shows, hdown.received_le⟩
  · rw [hstep]
    rw [houtput]
    generalize hafter : Forwarder.forward zlib compress _ output = after
    obtain ⟨sent, hprefix, hall, hsent, hle⟩ := hdown.forward server output hafter
    refine ⟨rfl, ⟨packets', hcarries, ⟨hreaches.toShell, hreaches.pipeOpen, fun _ =>
      hreaches.ended hruns⟩, hup.echoed⟩, sent, hprefix, fun hserves => ?_, hsent, hdown.shows, hle⟩
    have hfree : (!after.blocked) = true := (Bool.and_eq_true_iff.1 hserves).1
    exact hall (by simpa using hfree)

/-! ## Runs -/

theorem keyReads_append (turns turns' : List Turn) :
    keyReads (turns ++ turns') = keyReads turns ++ keyReads turns' := by
  induction turns with
  | nil => rfl
  | cons turn turns ih =>
      rcases turn with ⟨_ | read, hangup, socket⟩ | ⟨packet, output, hangup⟩
      · exact ih
      · exact congrArg (read :: ·) ih
      · exact ih

theorem printed_append (turns turns' : List Turn) :
    printed (turns ++ turns') = printed turns ++ printed turns' := by
  induction turns with
  | nil => rfl
  | cons turn turns ih =>
      rcases turn with poll | ⟨packet, _ | output, hangup⟩
      · exact ih
      · exact ih
      · exact congrArg (output :: ·) ih

variable (zlib compress) in
/-- The invariant of a run. -/
structure Keeps (d : Duplex σ τ) (turns : List Turn) (reads : List Read)
    (packets outputs pieces : List (List UInt8)) : Prop where
  upward : Upward zlib compress d reads packets
  downward : Downward zlib compress d outputs pieces
  read : reads <+: keyReads turns
  read_all : d.clientSide.terminal.running = true → reads = keyReads turns
  sent : outputs <+: printed turns
  sent_all : d.serving = true → outputs = printed turns

/-- A turn keeps it. -/
theorem Keeps.step {turns : List Turn}
    (h : Keeps zlib compress d turns reads packets outputs pieces) (turn : Turn) :
    ∃ reads packets outputs pieces,
      Keeps zlib compress (d.step zlib compress turn) (turns ++ [turn]) reads packets outputs
        pieces := by
  cases turn with
  | client poll =>
      have hkeys : keyReads (turns ++ [.client poll]) = keyReads turns ++ poll.keys.toList := by
        rw [keyReads_append]
        rcases poll with ⟨_ | read, hangup, socket⟩ <;> rfl
      have hprinted : printed (turns ++ [.client poll]) = printed turns := by
        rw [printed_append]
        exact List.append_nil _
      show ∃ reads packets outputs pieces,
        Keeps zlib compress (d.clientRound zlib compress poll) _ reads packets outputs pieces
      by_cases hrun : d.clientSide.terminal.running = true
      · obtain ⟨hforwarder, hup, pieces', hdown⟩ := clientRound_right h.upward h.downward hrun poll
        refine ⟨_, packets, outputs, pieces', hup, hdown, ?_, fun _ => ?_, ?_, fun hserving => ?_⟩
        · rw [hkeys, h.read_all hrun]
        · rw [hkeys, h.read_all hrun]
        · rw [hprinted]
          exact h.sent
        · rw [hprinted]
          rw [Duplex.serving, hforwarder] at hserving
          exact h.sent_all hserving
      · have hsame : d.clientRound zlib compress poll = d := if_pos (by simpa using hrun)
        rw [hsame]
        refine ⟨reads, packets, outputs, pieces, h.upward, h.downward, ?_, fun hr => absurd hr hrun,
          ?_, ?_⟩
        · rw [hkeys]
          exact h.read.trans (List.prefix_append _ _)
        · rw [hprinted]
          exact h.sent
        · rw [hprinted]
          exact h.sent_all
  | server packet output hangup =>
      have hkeys : keyReads (turns ++ [.server packet output hangup]) = keyReads turns := by
        rw [keyReads_append]
        exact List.append_nil _
      have hprinted : printed (turns ++ [.server packet output hangup]) =
          printed turns ++ output.toList := by
        rw [printed_append]
        cases output <;> rfl
      show ∃ reads packets outputs pieces,
        Keeps zlib compress (d.serverRound zlib compress packet output hangup) _ reads packets
          outputs pieces
      by_cases hserving : d.serving = true
      · obtain ⟨hclient, ⟨packets', hup⟩, sent, hprefix, hall, hdown⟩ :=
          serverRound_right h.upward h.downward hserving packet output hangup
        refine ⟨reads, packets', outputs ++ sent, pieces, hup, hdown, ?_, fun hr => ?_, ?_,
          fun hserves => ?_⟩
        · rw [hkeys]
          exact h.read
        · rw [hclient] at hr
          rw [hkeys]
          exact h.read_all hr
        · rw [hprinted, h.sent_all hserving]
          exact (List.prefix_append_right_inj _).2 hprefix
        · rw [hprinted, h.sent_all hserving, hall hserves]
      · have hsame : d.serverRound zlib compress packet output hangup = d :=
          if_pos (by simpa using hserving)
        rw [hsame]
        refine ⟨reads, packets, outputs, pieces, h.upward, h.downward, ?_, ?_, ?_,
          fun hs => absurd hs hserving⟩
        · rw [hkeys]
          exact h.read
        · rw [hkeys]
          exact h.read_all
        · rw [hprinted]
          exact h.sent.trans (List.prefix_append _ _)

end Turns

end Coursework.RemoteShell
