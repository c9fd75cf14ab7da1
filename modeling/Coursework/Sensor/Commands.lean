import Mathlib.Data.List.Basic
import Mathlib.Data.Nat.Notation

/-!
# The command loop of the sensor

The loop of `lab4b.c` that collects the bytes typed on standard input in `cmd_str` until a line is
complete, and executes it. A store outside `cmd_str` stops the run, and so does a command or a
failed read that ends the program. A `long` has 32 bits, which matters to `strtol` only for numbers
of more than nine digits. Left out are the thread that reads the sensor, the message about an
unknown command and the echo of the input.
-/

namespace Coursework.Sensor

abbrev Bytes := List UInt8

/-- The bytes of a text. -/
def ascii (text : String) : Bytes :=
  text.toList.map fun c => UInt8.ofNat c.toNat

/-- `'\n'`. -/
def newline : UInt8 := 10

/-! ## Numbers -/

/-- `isspace`. -/
def isSpace (b : UInt8) : Bool :=
  b = 32 || (9 ≤ b && b ≤ 13)

/-- The value of a digit or letter. -/
def digitValue (b : UInt8) : Nat :=
  if 48 ≤ b ∧ b ≤ 57 then b.toNat - 48
  else if 97 ≤ b ∧ b ≤ 122 then b.toNat - 87
  else if 65 ≤ b ∧ b ≤ 90 then b.toNat - 55
  else 36

/-- The value of the digits at the start of a string. -/
def digits (base : Nat) : Nat → Bytes → Nat
  | value, [] => value
  | value, b :: rest =>
      if digitValue b < base then digits base (value * base + digitValue b) rest else value

/-- The sign of a number and the string behind it. -/
def sign : Bytes → Int × Bytes
  | [] => (1, [])
  | b :: rest => if b = 45 then (-1, rest) else if b = 43 then (1, rest) else (1, b :: rest)

/-- `strtol(text, NULL, 0)`, where `long` has 32 bits. -/
def strtol (text : Bytes) : Int :=
  let (factor, text) := sign (text.dropWhile isSpace)
  let value :=
    if text.take 2 ∈ [ascii "0x", ascii "0X"] ∧ (text.drop 2).head?.any (digitValue · < 16) then
      digits 16 0 (text.drop 2)
    else if text.head? = some 48 then digits 8 0 text
    else digits 10 0 text
  let result := factor * value
  if result < -2147483648 then -2147483648
  else if result > 2147483647 then 2147483647
  else result

example : strtol (ascii " 0x1fg") = 31 := by decide
example : strtol (ascii "-017 ") = -15 := by decide

/-! ## The program -/

/-- The settings that commands change, and the lines in the log file if there is one. -/
structure Settings where
  period : UInt32
  scale : UInt8
  reportFlag : Bool
  logFlag : Bool
  logged : List Bytes

/-- How a run ends early. -/
inductive Stop where
  | outOfRange
  | exited
  deriving DecidableEq

/-- The string at the start of some bytes. -/
def cString (bytes : Bytes) : Bytes :=
  bytes.takeWhile (· ≠ 0)

/-- `exec_cmd`. The 8 characters in `temp_pd` need not have an end, so `strtol` may read on into
the bytes behind it. -/
def execCmd (behind : Bytes) (settings : Settings) (cmdStr : Vector UInt8 32) :
    Except Stop Settings :=
  let text := cString cmdStr.toList
  let settings :=
    if settings.logFlag then { settings with logged := settings.logged ++ [text] } else settings
  if text = ascii "OFF" then .error .exited
  else if text = ascii "START" then .ok { settings with reportFlag := true }
  else if text = ascii "STOP" then .ok { settings with reportFlag := false }
  else if ascii "LOG" <+: text then .ok settings
  else if ascii "SCALE=" <+: text then
    let scale := cmdStr[6]
    if scale ≠ 70 ∧ scale ≠ 67 then .error .exited else .ok { settings with scale := scale }
  else if ascii "PERIOD=" <+: text then
    let tempPd := (cmdStr.toList.drop 7).take 8
    let period := UInt32.ofInt (strtol (cString (tempPd ++ behind)))
    if period < 1 then .error .exited else .ok { settings with period := period }
  else .ok settings

/-- The variables of the loop, and the number of commands so far. -/
structure Loop where
  cmdStr : Vector UInt8 32
  cmdStrIdx : Int
  settings : Settings
  executed : Nat

/-- A store to `cmd_str[cmd_str_idx]`. -/
def Loop.store (s : Loop) (byte : UInt8) : Except Stop Loop :=
  if 0 ≤ s.cmdStrIdx ∧ s.cmdStrIdx < 32 then
    .ok { s with cmdStr := s.cmdStr.setIfInBounds s.cmdStrIdx.toNat byte }
  else .error .outOfRange

/-- The body of the loop over the bytes that were read. -/
def readByte (behind : Nat → Bytes) (s : Loop) (byte : UInt8) : Except Stop Loop := do
  let s ← s.store byte
  if byte = newline then
    let s ← s.store 0
    let settings ← execCmd (behind s.executed) s.settings s.cmdStr
    pure { s with settings := settings, executed := s.executed + 1, cmdStrIdx := -1 + 1 }
  else pure { s with cmdStrIdx := s.cmdStrIdx + 1 }

/-- What `read` returns: an error, which may say to try again, or at most `BUF_SIZE` bytes. -/
inductive ReadResult where
  | failed (again : Bool)
  | data (bytes : Bytes) (length_le : bytes.length ≤ 256)

/-- One round of the main loop. -/
def round (behind : Nat → Bytes) (s : Loop) : ReadResult → Except Stop Loop
  | .failed again => if again then .ok s else .error .exited
  | .data bytes _ => bytes.foldlM (readByte behind) s

/-- The rounds of the main loop, until the button is pressed. -/
def mainLoop (behind : Nat → Bytes) (s : Loop) (reads : List ReadResult) : Except Stop Loop :=
  reads.foldlM (round behind) s

/-- The variables before the loop: `cmd_str` is not initialised. -/
def Loop.start (cmdStr : Vector UInt8 32) (settings : Settings) : Loop where
  cmdStr := cmdStr
  cmdStrIdx := 0
  settings := settings
  executed := 0

end Coursework.Sensor
