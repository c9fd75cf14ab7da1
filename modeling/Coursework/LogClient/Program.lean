import Mathlib.Data.List.Basic

/-!
# The log buffers of the client

What `lab1b-client.c` does with `sent_buf` and `recv_buf` when it was started with `--log`. The
array of a buffer is a list of bytes, `none` where nothing was stored yet. A store outside
the array is `none`, and so is a loop of `grow_buffer` calls that does not end. The main loop is
a list of polls with what the reads returned and what zlib made of it; all that the client shows
or sends is left out.
-/

namespace Coursework.LogClient

/-- `READ_SIZE`. -/
def readSize : Nat := 16384

/-- `SCALING_FACTOR`. -/
def scalingFactor : Nat := 2

/-- `ctrl_D`, `cr_char`, `lf_char` and `sp_char`. -/
def ctrlD : UInt8 := 0x04
/-- A carriage return. -/
def crChar : UInt8 := 0x0D
/-- A line feed. -/
def lfChar : UInt8 := 0x0A
/-- A space. -/
def spChar : UInt8 := 0x20

/-- `struct buffer`. -/
structure Buffer where
  capacity : Int
  load : Int
  avaliable : Int
  data : List (Option UInt8)
  deriving DecidableEq

namespace Buffer

/-- `init_buf`. -/
def init : Buffer where
  capacity := readSize
  load := 0
  avaliable := readSize - 0
  data := List.replicate readSize none

/-- `grow_buffer`. -/
def grow (buf : Buffer) : Buffer where
  capacity := buf.capacity * scalingFactor
  load := buf.load
  avaliable := buf.capacity * scalingFactor - buf.load
  data := buf.data ++ List.replicate ((buf.capacity * scalingFactor).toNat - buf.data.length) none

/-- The loop of `grow_buffer` calls until `size` bytes are available; `fuel` bounds their number. -/
def growFor (size : Int) : Nat → Buffer → Option Buffer
  | 0, _ => none
  | fuel + 1, buf => if buf.avaliable < size then growFor size fuel buf.grow else some buf

/-- Stores of consecutive bytes from `data[load]` on, which `memcpy` makes, and of a single one. -/
def store (buf : Buffer) (bytes : List UInt8) : Option Buffer :=
  if 0 ≤ buf.load ∧ buf.load + bytes.length ≤ buf.capacity then
    some { buf with
      data := buf.data.take buf.load.toNat ++ bytes.map some ++
        buf.data.drop (buf.load.toNat + bytes.length) }
  else none

/-- A chunk of bytes is logged with `memcpy`. -/
def logChunk (buf : Buffer) (bytes : List UInt8) : Option Buffer := do
  let buf ← buf.growFor bytes.length (bytes.length + buf.load.toNat + 1)
  let buf ← buf.store bytes
  some { buf with load := buf.load + bytes.length }

/-- A single byte is logged. -/
def logByte (buf : Buffer) (byte : UInt8) : Option Buffer := do
  let buf := if buf.avaliable = 0 then buf.grow else buf
  let buf ← buf.store [byte]
  some { buf with load := buf.load + 1 }

end Buffer

/-- The two buffers. -/
structure Client where
  sent : Buffer
  recv : Buffer
  deriving DecidableEq

/-- The client after `opt_handler`. -/
def Client.init : Client := ⟨.init, .init⟩

/-- A key that was typed, with the bytes of `deflate` for it. -/
structure Key where
  char : UInt8
  zip : List UInt8
  deriving DecidableEq

/-- What the server sent: the bytes of the read, none if the connection was closed, and the bytes of
`inflate` for them. -/
structure Received where
  bytes : List UInt8
  unzip : List UInt8
  deriving DecidableEq

/-- One round of the main loop: the keys that were read from the keyboard, whether the socket
reports an error or hangup, and what was read from the socket if there was input. -/
structure Poll where
  keys : List Key
  hangup : Bool
  socket : Option Received
  deriving DecidableEq

/-- The body of the loop over the keys, with or without `--compress`. -/
def typeKey (compress : Bool) (client : Client) (key : Key) : Option Client :=
  if compress then do
    let sent ← client.sent.logChunk key.zip
    some { client with sent := sent }
  else if key.char = crChar ∨ key.char = lfChar then do
    let sent ← client.sent.logByte spChar
    some { client with sent := sent }
  else do
    let sent ← client.sent.logByte key.char
    some { client with sent := sent }

/-- The loop over the keys: the states after each of them. -/
def typeKeys (compress : Bool) (client : Client) : List Key → Option (List Client)
  | [] => some []
  | key :: keys => do
      let client ← typeKey compress client key
      let states ← typeKeys compress client keys
      some (client :: states)

/-- Whether `get_server_data` shows an end of transmission. -/
def showsEnd (compress : Bool) (received : Received) : Bool :=
  if compress then ctrlD ∈ received.unzip else ctrlD ∈ received.bytes

/-- `get_server_data`: the state afterwards and whether the client exits. -/
def getServerData (compress : Bool) (client : Client) (received : Received) :
    Option (Client × Bool) :=
  if received.bytes = [] then some (client, true)
  else do
    let recv ← client.recv.logChunk received.bytes
    some ({ client with recv := recv }, showsEnd compress received)

/-- One round of the main loop: the states after each log entry and whether the client exits. -/
def round (compress : Bool) (client : Client) (poll : Poll) : Option (List Client × Bool) := do
  let states ← typeKeys compress client poll.keys
  if poll.hangup then some (states, true)
  else match poll.socket with
    | none => some (states, false)
    | some received => do
        let (client, exits) ← getServerData compress (states.getLastD client) received
        some (states ++ [client], exits)

/-- The main loop: the states after each log entry, up to the exit. -/
def mainLoop (compress : Bool) (client : Client) : List Poll → Option (List Client)
  | [] => some []
  | poll :: polls => do
      let (states, exits) ← round compress client poll
      if exits then some states
      else do
        let rest ← mainLoop compress (states.getLastD client) polls
        some (states ++ rest)

end Coursework.LogClient
