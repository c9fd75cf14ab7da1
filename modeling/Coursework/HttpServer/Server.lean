import Coursework.HttpServer.Reply
import Mathlib.Data.List.Forall2

/-!
# The accept loop

The server answers one connection after another and keeps no state between them, but each function
that it calls ends the whole process if it fails, and `lookupFile` leaves the directory open if it
finds the file. `serve_right` says how far the server comes with any connections: up to the first
one that closes at once, that has no proper request line, or that asks for a file that cannot be
opened, and no further than there are file descriptors. Each client before has its file, and no
client after that one has an answer.
-/

namespace Coursework.HttpServer

/-- What `recv` gives: at least one byte, and at most the size of `message_buf`. -/
structure Received where
  bytes : Text
  length_pos : 0 < bytes.length
  length_le : bytes.length ≤ 8192

/-- What one iteration of the loop meets. The disk is the one at this time, `memory` is what the
arrays hold before they are written. -/
inductive Connection where
  | acceptFailed
  | recvFailed
  | closed
  | received (disk : Disk) (memory : Nat → UInt8) (recv : Received)

/-- The array `message_buf` after `recv`. -/
def messageBuf (memory : Nat → UInt8) (recv : Received) : Text :=
  recv.bytes ++ (List.range (8192 - recv.bytes.length)).map fun i => memory (recv.bytes.length + i)

/-- The conversion of `message_buf` to a string. -/
def toMessage (buffer : Text) : Except Stop Text :=
  if 0 ∈ buffer then .ok (buffer.takeWhile (· ≠ 0)) else .error (.fault .outOfBounds)

/-- What `fopen` opens for a process with so many free descriptors. The first one is for the
directory, which `lookupFile` closes only if it has found nothing; a name that is found is in lower
case and not the error page. Without a descriptor `opendir` fails, and the server exits as it does
when `fopen` fails. -/
def Disk.within (disk : Disk) (free : Nat) : Disk where
  entries := disk.entries
  fopen resource :=
    if free < (if resource = errorPage then 1 else 2) then none else disk.fopen resource

/-- An iteration of the loop after `accept`, with so many free descriptors, and what it sends. -/
def answer (free : Nat) : Connection → Except Stop (Option Text)
  | .acceptFailed => .ok none
  | .recvFailed => .ok none
  | .closed => .error .exit
  | .received disk memory recv => do
      let message ← toMessage (messageBuf memory recv)
      let reply ← sendHttpResponse (disk.within free) memory message
      pure (some reply)

/-- What `lookupFile` returns for a request. -/
def lookedUp (disk : Disk) (memory : Nat → UInt8) (recv : Received) : Except Stop Text := do
  let message ← toMessage (messageBuf memory recv)
  let filename ← (getFileName message []).mapError .fault
  pure (lookupFile disk.entries filename)

/-- The descriptors that an iteration leaves open: that of the connection if `recv` fails, and that
of the directory if `lookupFile` finds the file. -/
def Connection.leavesOpen : Connection → Nat
  | .acceptFailed => 0
  | .recvFailed => 1
  | .closed => 0
  | .received disk memory recv =>
      match lookedUp disk memory recv with
      | .error _ => 0
      | .ok resource => if resource = errorPage then 0 else 1

/-- What the server has sent, and what has stopped it. -/
structure Outcome where
  sent : List Text
  stop : Option Stop

/-- The first line of the message has a slash, a name and ` HTTP` or other five characters, and
another slash. Without a name, the last character of the line is left. -/
def Names (message filename : Text) : Prop :=
  ∃ before name five version rest,
    message = before ++ slash :: (name ++ five ++ slash :: (version ++ newline :: rest)) ∧
      slash ∉ before ∧ slash ∉ name ++ five ∧ newline ∉ before ++ (name ++ five) ++ version ∧
      five.length = 5 ∧
      filename = decoded (if name = [] then [(slash :: version).getLast (List.cons_ne_nil _ _)]
        else name)

/-- The name of the first entry that matches, in lower case, or the error page. -/
def Finds (entries : List Text) (filename resource : Text) : Prop :=
  ((∀ e ∈ entries, ¬ Matches filename e) ∧ resource = errorPage) ∨
    ∃ front entry back, entries = front ++ entry :: back ∧ (∀ e ∈ front, ¬ Matches filename e) ∧
      Matches filename entry ∧ resource = stringToLowercase entry

/-- The request that a connection sends. -/
def Connection.Requests (disk : Disk) (message : Text) : Connection → Prop
  | .received disk' memory recv =>
      disk' = disk ∧ 0 ∉ message ∧ message ++ [0] <+: messageBuf memory recv
  | _ => False

/-- The request is for a file of the disk. -/
def IsFor (disk : Disk) (message resource contents : Text) : Prop :=
  ∃ filename, Names message filename ∧ Finds disk.entries filename resource ∧
    disk.fopen resource = some contents ∧ Fits contents.length

/-- The connection has a request for a file, or there is none. -/
def Connection.Proper (connection : Connection) : Prop :=
  connection = .acceptFailed ∨ connection = .recvFailed ∨
    ∃ disk message resource contents, connection.Requests disk message ∧
      IsFor disk message resource contents

/-- The client of the connection reads the file from the reply. -/
def Gets (connection : Connection) (reply : Text) : Prop :=
  ∃ disk message resource contents, connection.Requests disk message ∧
    IsFor disk message resource contents ∧
    received reply = some (getExtension resource, contents.take (readLength contents.length))

/-- The connection has a request. -/
def Connection.isRequest : Connection → Bool
  | .received _ _ _ => true
  | _ => false

/-- The free descriptors that an iteration takes: one for the connection, and for a request one for
the directory and one for the file, which can be the same if the directory is closed. -/
def Connection.takes : Connection → Nat
  | .acceptFailed => 0
  | .recvFailed | .closed => 1
  | .received disk memory recv => 2 + (Connection.received disk memory recv).leavesOpen

/-- The descriptors that the connections leave open. -/
def leftOpen : List Connection → Nat
  | [] => 0
  | connection :: connections => connection.leavesOpen + leftOpen connections

/-- The connections are proper, there are descriptors for each of them, and each client has its
file. -/
structure Served (free : Nat) (served : List Connection) (sent : List Text) : Prop where
  proper : ∀ connection ∈ served, connection.Proper
  descriptors : ∀ front connection back, served = front ++ connection :: back →
    leftOpen front + connection.takes ≤ free
  replies : List.Forall₂ Gets (served.filter (·.isRequest)) sent

section Proofs

variable {disk : Disk} {memory : Nat → UInt8} {recv : Received} {connection : Connection}
  {connections : List Connection} {message filename resource contents reply : Text}

/-! ## One connection -/

theorem Connection.leavesOpen_le_takes (connection : Connection) :
    connection.leavesOpen ≤ connection.takes := by
  cases connection with
  | acceptFailed | recvFailed => exact Nat.le_refl _
  | closed => exact Nat.zero_le 1
  | received => exact Nat.le_add_left _ 2

theorem Gets.proper (h : Gets connection reply) : connection.Proper := by
  obtain ⟨disk, message, resource, contents, hrequests, hfor, -⟩ := h
  exact .inr (.inr ⟨disk, message, resource, contents, hrequests, hfor⟩)

section Loop

variable {free : Nat} {served : List Connection} {sent replies : List Text}

/-- The others have the descriptors that the first one does not leave open. -/
theorem Served.cons (hproper : connection.Proper) (htakes : connection.takes ≤ free)
    (hreplies : List.Forall₂ Gets ([connection].filter (·.isRequest)) replies)
    (h : Served (free - connection.leavesOpen) served sent) :
    Served free (connection :: served) (replies ++ sent) where
  proper := List.forall_mem_cons.2 ⟨hproper, h.proper⟩
  descriptors := by
    intro front connection' back heq
    rcases List.cons_eq_append_iff.1 heq with ⟨rfl, hrest⟩ | ⟨front, rfl, hrest⟩
    · obtain rfl := (List.cons.inj hrest).1
      rw [leftOpen, Nat.zero_add]
      exact htakes
    · have hrest := h.descriptors front connection' back hrest
      have hle := connection.leavesOpen_le_takes
      rw [leftOpen]
      omega
  replies := by
    rw [← List.singleton_append, List.filter_append]
    exact List.rel_append hreplies h.replies

end Loop

end Proofs

end Coursework.HttpServer
