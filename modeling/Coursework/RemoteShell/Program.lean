import Coursework.LogClient.Program
import Coursework.Streams.Codec

/-!
# From the keyboard to the shell

What `lab1b-client.c` sends for the keys that were typed, and what `echo_and_forwrd` of
`lab1b-server.c` writes to the pipe of the shell. The connection is the list of the bytes under
way; zlib is a codec. What is shown, logged or sent back is left out, and so are the signals to
the shell, which is taken to stay alive.
Vocabulary and scope: `Coursework.LogClient.Program`, `Coursework.Streams.Codec`.
-/

namespace Coursework.RemoteShell

open LogClient Streams

/-- `ctrl_C`. -/
def ctrlC : UInt8 := 0x03

/-- A read from the keyboard: `read_buf`, and what lies behind `keybd_char` on the stack while it is
the character at an index. -/
structure Read where
  readBuf : List UInt8
  behind : Nat → Nat → UInt8

/-- The server: its inflate stream, the write end of the pipe, whether it still runs, and what was
written to the pipe. -/
structure Server (τ : Type) where
  inbound : τ
  pipeOpen : Bool
  running : Bool
  toShell : List UInt8

/-- The client's deflate stream, the bytes under way and the server. -/
structure Session (σ τ : Type) where
  outbound : σ
  wire : List UInt8
  server : Server τ

variable {σ τ : Type} (zlib : Codec σ τ UInt8) (compress : Bool)

/-- Both sides after the connection was made. -/
def Session.init : Session σ τ where
  outbound := zlib.outbound
  wire := []
  server := ⟨zlib.inbound, true, true, []⟩

/-- The body of the client's loop over `read_buf`. With `--compress`, `deflate` is given `read_len`
bytes from `keybd_char` on. -/
def sendKey (readLen : Nat) (session : Session σ τ) (keybdChar : UInt8) (behind : Nat → UInt8) :
    Session σ τ :=
  if keybdChar = crChar ∨ keybdChar = lfChar then
    if compress then
      let (outbound, zip) :=
        zlib.encode session.outbound (keybdChar :: (List.range (readLen - 1)).map behind)
      { session with outbound := outbound, wire := session.wire ++ zip }
    else { session with wire := session.wire ++ [lfChar] }
  else
    if compress then
      let (outbound, zip) :=
        zlib.encode session.outbound (keybdChar :: (List.range (readLen - 1)).map behind)
      { session with outbound := outbound, wire := session.wire ++ zip }
    else { session with wire := session.wire ++ [keybdChar] }

/-- The client's loop over `read_buf`. -/
def sendKeys (session : Session σ τ) (read : Read) : Session σ τ :=
  read.readBuf.zipIdx.foldl
    (fun session (keybdChar, i) =>
      sendKey zlib compress read.readBuf.length session keybdChar (read.behind i)) session

/-- `dprintf` to the pipe. -/
def Server.write (server : Server τ) (byte : UInt8) : Server τ :=
  if server.pipeOpen then { server with toShell := server.toShell ++ [byte] } else server

/-- The body of the server's loop over `read_buf`. The second ^D fails to close the pipe, and the
server exits. -/
def Server.forward (server : Server τ) (recvChar : UInt8) : Server τ :=
  if !server.running then server
  else if recvChar = crChar ∨ recvChar = lfChar then server.write lfChar
  else if recvChar = ctrlD then
    if server.pipeOpen then { server with pipeOpen := false } else { server with running := false }
  else if recvChar = ctrlC then server
  else server.write recvChar

/-- The server handles a packet. -/
def Server.receive (server : Server τ) (packet : List UInt8) : Server τ :=
  if !server.running then server
  else if compress then
    let (inbound, unzip) := zlib.decode server.inbound packet
    unzip.foldl Server.forward { server with inbound := inbound }
  else packet.foldl Server.forward server

/-- What happens next: the client reads from the keyboard, or the server reads at most `n` bytes
from the socket. -/
inductive Event where
  | keyboard (read : Read)
  | socket (n : Nat)

/-- One event. -/
def step (session : Session σ τ) : Event → Session σ τ
  | .keyboard read => sendKeys zlib compress session read
  | .socket n =>
      let size := min n readSize
      { session with
        wire := session.wire.drop size
        server := session.server.receive zlib compress (session.wire.take size) }

/-- A run of both sides. -/
def run (events : List Event) : Session σ τ :=
  events.foldl (step zlib compress) (Session.init zlib)

end Coursework.RemoteShell
