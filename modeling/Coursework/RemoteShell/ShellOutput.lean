import Coursework.RemoteShell.Program

/-!
# The output of the shell

The loop of `echo_and_forwrd` with `get_and_forward_shell_output`, which writes a copy of what the
shell prints to the pipe `kerntosock`. No function of `lab1b-server.c` reads that pipe, so its bytes
only grow in number, and when there is no room for a `dprintf`, the loop stands still. The loop
around `deflate` is a call of the codec.
Vocabulary and scope: `Coursework.RemoteShell.Program`.
-/

namespace Coursework.RemoteShell

open LogClient Streams

variable {σ τ : Type}

/-- The capacity of a pipe. -/
def pipeCapacity : Nat := 65536

/-- What a call of `poll` finds: a packet on the socket, output of the shell, and whether the pipe
of the shell reports an error or hangup. -/
structure ServerPoll where
  packet : Option (List UInt8)
  output : Option (List UInt8)
  hangup : Bool

/-- The server with its deflate stream, the unread bytes in `kerntosock`, the bytes sent to the
client, and whether a `dprintf` to `kern_to_sock_write` blocks. -/
structure Forwarder (σ τ : Type) where
  server : Server τ
  outbound : σ
  kernToSock : List UInt8
  toClient : List UInt8
  blocked : Bool

/-- `dprintf` to `kern_to_sock_write`. -/
def Forwarder.dprintf (s : Forwarder σ τ) (bytes : List UInt8) : Forwarder σ τ :=
  if s.blocked then s
  else if s.kernToSock.length + bytes.length ≤ pipeCapacity then
    { s with kernToSock := s.kernToSock ++ bytes }
  else { s with blocked := true }

/-- The body of the loop over `read_buf` in `get_and_forward_shell_output`. -/
def Forwarder.copyByte (s : Forwarder σ τ) (byte : UInt8) : Forwarder σ τ :=
  if byte = ctrlD then s.dprintf [byte]
  else if byte = lfChar then s.dprintf [crChar, lfChar]
  else s.dprintf [byte]

variable (zlib : Codec σ τ UInt8) (compress : Bool)

/-- `get_and_forward_shell_output`. -/
def getAndForwardShellOutput (s : Forwarder σ τ) (readBuf : List UInt8) : Forwarder σ τ :=
  let s := readBuf.foldl Forwarder.copyByte s
  if s.blocked then s
  else if compress then
    let (outbound, zip) := zlib.encode s.outbound readBuf
    { s with outbound := outbound, toClient := s.toClient ++ zip }
  else { s with toClient := s.toClient ++ readBuf }

/-- The server before `poll` is called for the first time. -/
def Forwarder.init : Forwarder σ τ where
  server := ⟨zlib.inbound, true, true, []⟩
  outbound := zlib.outbound
  kernToSock := []
  toClient := []
  blocked := false

/-- The part of the loop for the socket. -/
def Server.poll (server : Server τ) (poll : ServerPoll) : Server τ :=
  match poll.packet with
  | none => server
  | some packet => server.receive zlib compress packet

/-- A round of the loop in `echo_and_forwrd`, as long as the server runs and is not blocked. -/
def Forwarder.step (s : Forwarder σ τ) (poll : ServerPoll) : Forwarder σ τ :=
  if s.blocked || !s.server.running then s
  else
    let s := { s with server := s.server.poll zlib compress poll }
    if !s.server.running then s
    else
      let s :=
        match poll.output with
        | none => s
        | some readBuf => getAndForwardShellOutput zlib compress s readBuf
      if s.blocked then s
      else if poll.hangup then { s with server := { s.server with running := false } }
      else s

/-- A run of the loop. -/
def Forwarder.run (s : Forwarder σ τ) (polls : List ServerPoll) : Forwarder σ τ :=
  polls.foldl (Forwarder.step zlib compress) s

/-- What the server reads from the shell until it exits. -/
def shellOutput (server : Server τ) : List ServerPoll → List UInt8
  | [] => []
  | poll :: polls =>
      if !server.running then []
      else
        let server := server.poll zlib compress poll
        if !server.running then []
        else poll.output.getD [] ++ if poll.hangup then [] else shellOutput server polls

/-- The bytes for the pipe. -/
def expand (bytes : List UInt8) : List UInt8 :=
  bytes.flatMap fun byte => if byte = lfChar then [crChar, lfChar] else [byte]

/-- In every state of the run the unread bytes fit into the pipe and no `dprintf` blocks. -/
def NeverBlocks (polls : List ServerPoll) : Prop :=
  ∀ before, before <+: polls →
    (Forwarder.run zlib compress (Forwarder.init zlib) before).kernToSock.length ≤ pipeCapacity ∧
      (Forwarder.run zlib compress (Forwarder.init zlib) before).blocked = false

variable {s : Forwarder σ τ} {polls : List ServerPoll}

/-! ## Copying -/

/-- A `dprintf` for which there is room. -/
theorem dprintf_fits {bytes : List UInt8} (hfree : s.blocked = false)
    (hroom : s.kernToSock.length + bytes.length ≤ pipeCapacity) :
    s.dprintf bytes = { s with kernToSock := s.kernToSock ++ bytes } := by
  rw [Forwarder.dprintf, hfree, if_neg Bool.false_ne_true, if_pos hroom]

/-- A `dprintf` for which there is none. -/
theorem dprintf_blocks {bytes : List UInt8} (hfree : s.blocked = false)
    (hover : pipeCapacity < s.kernToSock.length + bytes.length) :
    (s.dprintf bytes).blocked = true := by
  rw [Forwarder.dprintf, hfree, if_neg Bool.false_ne_true, if_neg (Nat.not_le_of_lt hover)]

/-- A byte is copied in its expansion. -/
theorem copyByte_eq (s : Forwarder σ τ) (byte : UInt8) :
    s.copyByte byte = s.dprintf (expand [byte]) := by
  unfold Forwarder.copyByte expand
  rw [List.flatMap_singleton]
  split
  · next hd =>
    subst hd
    rfl
  · split <;> rfl

theorem expand_append (xs ys : List UInt8) : expand (xs ++ ys) = expand xs ++ expand ys :=
  List.flatMap_append

theorem length_expand_cons (b : UInt8) (bytes : List UInt8) :
    (expand (b :: bytes)).length = (expand [b]).length + (expand bytes).length := by
  rw [← List.length_append, ← expand_append]
  rfl

/-- A server that is blocked copies nothing more. -/
theorem copyBytes_blocked (bytes : List UInt8) (hblocked : s.blocked = true) :
    bytes.foldl Forwarder.copyByte s = s := by
  induction bytes with
  | nil => rfl
  | cons b bytes ih =>
      have hkeep : s.copyByte b = s := by
        rw [copyByte_eq]
        exact if_pos hblocked
      rw [List.foldl_cons, hkeep, ih]

/-- Copying leaves the server alone. -/
theorem copyBytes_server (s : Forwarder σ τ) (bytes : List UInt8) :
    (bytes.foldl Forwarder.copyByte s).server = s.server := by
  induction bytes generalizing s with
  | nil => rfl
  | cons b bytes ih =>
      rw [List.foldl_cons, ih, copyByte_eq]
      unfold Forwarder.dprintf
      split
      · rfl
      · split <;> rfl

/-- With room for all of the bytes they are copied. -/
theorem copyBytes_fits (bytes : List UInt8) (hfree : s.blocked = false)
    (hroom : s.kernToSock.length + (expand bytes).length ≤ pipeCapacity) :
    (bytes.foldl Forwarder.copyByte s).blocked = false ∧
      (bytes.foldl Forwarder.copyByte s).kernToSock = s.kernToSock ++ expand bytes := by
  induction bytes generalizing s with
  | nil => exact ⟨hfree, (List.append_nil _).symm⟩
  | cons b bytes ih =>
      rw [length_expand_cons] at hroom
      rw [List.foldl_cons, copyByte_eq, dprintf_fits hfree (by omega)]
      obtain ⟨hafter, hload⟩ := ih (s := { s with kernToSock := s.kernToSock ++ expand [b] }) hfree
        (by rw [List.length_append]; omega)
      refine ⟨hafter, ?_⟩
      rw [hload, List.append_assoc, ← expand_append]
      rfl

/-- Without room for all of the bytes the server blocks at one of them. -/
theorem copyBytes_blocks (bytes : List UInt8) (hfree : s.blocked = false)
    (hload : s.kernToSock.length ≤ pipeCapacity)
    (hover : pipeCapacity < s.kernToSock.length + (expand bytes).length) :
    (bytes.foldl Forwarder.copyByte s).blocked = true := by
  induction bytes generalizing s with
  | nil => exact absurd hover (Nat.not_lt_of_le hload)
  | cons b bytes ih =>
      rw [length_expand_cons] at hover
      rw [List.foldl_cons, copyByte_eq]
      by_cases hroom : s.kernToSock.length + (expand [b]).length ≤ pipeCapacity
      · rw [dprintf_fits hfree hroom]
        refine ih (s := { s with kernToSock := s.kernToSock ++ expand [b] }) hfree ?_ ?_
        · rw [List.length_append]
          exact hroom
        · rw [List.length_append]
          omega
      · have hblocked := dprintf_blocks hfree (Nat.lt_of_not_le hroom)
        rw [copyBytes_blocked bytes hblocked, hblocked]

/-! ## The loop -/

/-- What is sent to the client changes neither the server nor the pipe. -/
theorem getAndForwardShellOutput_keeps (s : Forwarder σ τ) (readBuf : List UInt8) :
    (getAndForwardShellOutput zlib compress s readBuf).server = s.server ∧
      (getAndForwardShellOutput zlib compress s readBuf).blocked =
        (readBuf.foldl Forwarder.copyByte s).blocked ∧
      (getAndForwardShellOutput zlib compress s readBuf).kernToSock =
        (readBuf.foldl Forwarder.copyByte s).kernToSock := by
  rw [← copyBytes_server s readBuf]
  unfold getAndForwardShellOutput
  simp only
  split
  · exact ⟨rfl, rfl, rfl⟩
  · split <;> exact ⟨rfl, rfl, rfl⟩

section Loop

variable {zlib : Codec σ τ UInt8} {compress : Bool}

/-- A server that exited or is blocked does nothing more. -/
theorem run_stopped (hstopped : (s.blocked || !s.server.running) = true)
    (polls : List ServerPoll) : s.run zlib compress polls = s := by
  induction polls with
  | nil => rfl
  | cons poll polls ih =>
      have hkeep : s.step zlib compress poll = s := if_pos hstopped
      unfold Forwarder.run at ih ⊢
      rw [List.foldl_cons, hkeep, ih]

/-- The part of a round for the shell. -/
theorem forward_copies (output : Option (List UInt8)) (hfree : s.blocked = false)
    (hload : s.kernToSock.length ≤ pipeCapacity) {after : Forwarder σ τ}
    (hafter : (match output with
      | none => s
      | some readBuf => getAndForwardShellOutput zlib compress s readBuf) = after) :
    after.server = s.server ∧
      (s.kernToSock.length + (expand (output.getD [])).length ≤ pipeCapacity →
        after.blocked = false ∧ after.kernToSock = s.kernToSock ++ expand (output.getD [])) ∧
      (pipeCapacity < s.kernToSock.length + (expand (output.getD [])).length →
        after.blocked = true) := by
  subst hafter
  cases output with
  | none =>
      exact ⟨rfl, fun _ => ⟨hfree, (List.append_nil _).symm⟩,
        fun hover => absurd hover (Nat.not_lt_of_le hload)⟩
  | some readBuf =>
      obtain ⟨hserver, hblocked, hpipe⟩ := getAndForwardShellOutput_keeps zlib compress s readBuf
      refine ⟨hserver, fun hroom => ?_, fun hover => ?_⟩
      · obtain ⟨hafter, hcopied⟩ := copyBytes_fits readBuf hfree hroom
        exact ⟨hblocked.trans hafter, hpipe.trans hcopied⟩
      · exact hblocked.trans (copyBytes_blocks readBuf hfree hload hover)

/-- The run from a server that is not blocked, by induction on the polls: it blocks exactly if the
rest of the shell's output does not fit into the pipe. -/
theorem run_blocked_iff (hfree : s.blocked = false) (hload : s.kernToSock.length ≤ pipeCapacity)
    (polls : List ServerPoll) :
    (s.run zlib compress polls).blocked = true ↔ pipeCapacity <
      s.kernToSock.length + (expand (shellOutput zlib compress s.server polls)).length := by
  -- a run that ends with nothing more to read
  have hends : ∀ t : Forwarder σ τ, t.blocked = false → t.kernToSock.length ≤ pipeCapacity →
      (t.blocked = true ↔ pipeCapacity < t.kernToSock.length + (expand []).length) :=
    fun t hfree hload => iff_of_false (fun h => Bool.false_ne_true (hfree.symm.trans h))
      (Nat.not_lt_of_le hload)
  induction polls generalizing s with
  | nil => exact hends s hfree hload
  | cons poll polls ih =>
      show ((s.step zlib compress poll).run zlib compress polls).blocked = true ↔ _
      have hguard : (s.blocked || !s.server.running) = !s.server.running := by
        rw [hfree, Bool.false_or]
      unfold shellOutput Forwarder.step
      rw [hguard]
      by_cases hrunning : s.server.running = true
      · rw [hrunning, Bool.not_true, if_neg Bool.false_ne_true, if_neg Bool.false_ne_true]
        simp only
        generalize hserver : s.server.poll zlib compress poll = server
        by_cases hnext : server.running = true
        · rw [hnext, Bool.not_true, if_neg Bool.false_ne_true, if_neg Bool.false_ne_true]
          generalize hafter : (match poll.output with
            | none => _
            | some readBuf => _) = after
          obtain ⟨hsame, hfits, hblocks⟩ := forward_copies (s := { s with server := server })
            poll.output hfree hload hafter
          have hlength : ∀ rest, (expand (poll.output.getD [] ++ rest)).length =
              (expand (poll.output.getD [])).length + (expand rest).length := by
            intro rest
            rw [expand_append, List.length_append]
          rw [hlength]
          by_cases hroom : s.kernToSock.length + (expand (poll.output.getD [])).length ≤
              pipeCapacity
          · obtain ⟨hafterFree, hpipe⟩ := hfits hroom
            have hafterLoad : after.kernToSock.length =
                s.kernToSock.length + (expand (poll.output.getD [])).length := by
              rw [hpipe, List.length_append]
            rw [if_neg (by rw [hafterFree]; exact Bool.false_ne_true), ← Nat.add_assoc,
              ← hafterLoad]
            split
            · rw [run_stopped (by simp)]
              exact hends after hafterFree (by omega)
            · refine (ih hafterFree (by omega)).trans ?_
              rw [hsame]
          · have hafterBlocked := hblocks (Nat.lt_of_not_le hroom)
            rw [if_pos hafterBlocked, run_stopped (by rw [hafterBlocked]; rfl)]
            exact iff_of_true hafterBlocked (by omega)
        · rw [Bool.eq_false_iff.2 hnext, Bool.not_false, if_pos rfl, if_pos rfl,
            run_stopped (by simp [hnext])]
          exact hends { s with server := server } hfree hload
      · rw [Bool.eq_false_iff.2 hrunning, Bool.not_false, if_pos rfl, if_pos rfl,
          run_stopped (by simp [hrunning])]
        exact hends s hfree hload

/-- No `dprintf` overfills the pipe. -/
theorem dprintf_load (s : Forwarder σ τ) (bytes : List UInt8)
    (hload : s.kernToSock.length ≤ pipeCapacity) :
    (s.dprintf bytes).kernToSock.length ≤ pipeCapacity := by
  unfold Forwarder.dprintf
  split
  · exact hload
  · split
    · next hroom =>
      rw [List.length_append]
      exact hroom
    · exact hload

/-- No chunk overfills the pipe. -/
theorem copyBytes_load (s : Forwarder σ τ) (bytes : List UInt8)
    (hload : s.kernToSock.length ≤ pipeCapacity) :
    (bytes.foldl Forwarder.copyByte s).kernToSock.length ≤ pipeCapacity := by
  induction bytes generalizing s with
  | nil => exact hload
  | cons b bytes ih =>
      rw [List.foldl_cons, copyByte_eq]
      exact ih _ (dprintf_load s _ hload)

/-- No round overfills the pipe. -/
theorem step_load (poll : ServerPoll) (hload : s.kernToSock.length ≤ pipeCapacity) :
    (s.step zlib compress poll).kernToSock.length ≤ pipeCapacity := by
  unfold Forwarder.step
  split
  · exact hload
  · simp only
    split
    · exact hload
    · generalize hafter : (match poll.output with
        | none => _
        | some readBuf => _) = after
      have hafterLoad : after.kernToSock.length ≤ pipeCapacity := by
        subst hafter
        split
        · exact hload
        · next readBuf _ =>
          rw [(getAndForwardShellOutput_keeps zlib compress _ readBuf).2.2]
          exact copyBytes_load _ readBuf hload
      split
      · exact hafterLoad
      · split <;> exact hafterLoad

/-- No run overfills the pipe. -/
theorem run_load (polls : List ServerPoll) (hload : s.kernToSock.length ≤ pipeCapacity) :
    (s.run zlib compress polls).kernToSock.length ≤ pipeCapacity := by
  induction polls generalizing s with
  | nil => exact hload
  | cons poll polls ih => exact ih (step_load poll hload)

end Loop

/-- The run never blocks if and only if all that it reads from the shell fits into the pipe, with
two bytes for a line feed. -/
theorem neverBlocks_iff (polls : List ServerPoll) : NeverBlocks zlib compress polls ↔
    (expand (shellOutput zlib compress (Forwarder.init zlib).server polls)).length ≤
      pipeCapacity := by
  have hload : (Forwarder.init zlib).kernToSock.length ≤ pipeCapacity := Nat.zero_le _
  have hblocked : ((Forwarder.init zlib).run zlib compress polls).blocked = true ↔ pipeCapacity <
      0 + (expand (shellOutput zlib compress (Forwarder.init zlib).server polls)).length :=
    run_blocked_iff rfl hload polls
  rw [Nat.zero_add] at hblocked
  constructor
  · intro h
    have hfree := (h polls List.prefix_rfl).2
    refine Nat.le_of_not_lt fun hover => ?_
    exact Bool.false_ne_true (hfree.symm.trans (hblocked.2 hover))
  · intro hfits before hbefore
    refine ⟨run_load before hload, Bool.eq_false_iff.2 fun hstuck => ?_⟩
    obtain ⟨after, rfl⟩ := hbefore
    refine absurd (hblocked.1 ?_) (Nat.not_lt_of_le hfits)
    -- a blocked server stays so
    rw [show Forwarder.run zlib compress (Forwarder.init zlib) (before ++ after) =
      (Forwarder.run zlib compress (Forwarder.init zlib) before).run zlib compress after from
        List.foldl_append]
    rw [run_stopped (by rw [hstuck]; rfl)]
    exact hstuck

/-- The shell prints line feeds. -/
def lines (n : Nat) : ServerPoll :=
  ⟨none, some (List.replicate n lfChar), false⟩

theorem length_expand_lines (n : Nat) : (expand (List.replicate n lfChar)).length = 2 * n := by
  induction n with
  | zero => rfl
  | succ n ih =>
      rw [List.replicate_succ, length_expand_cons, ih]
      show 2 + 2 * n = _
      omega

theorem shellOutput_lines (n : Nat) : shellOutput (Codec.copying () ()) false
    (Forwarder.init (Codec.copying () ())).server [lines n, lines n, lines n] =
      List.replicate n lfChar ++ (List.replicate n lfChar ++ (List.replicate n lfChar ++ [])) := rfl

/-- Three full buffers of line feeds block the server. -/
theorem lines_block : ¬ NeverBlocks (Codec.copying () ()) false
    [lines readSize, lines readSize, lines readSize] := by
  intro h
  have hfree := (h _ List.prefix_rfl).2
  refine Bool.false_ne_true (hfree.symm.trans ((run_blocked_iff rfl (Nat.zero_le _) _).2 ?_))
  rw [shellOutput_lines]
  simp only [expand_append, List.length_append, length_expand_lines]
  unfold pipeCapacity readSize
  omega

end Coursework.RemoteShell
