import Coursework.HttpServer.Directory
import Coursework.Text.Format

/-!
# Replies

`send_HTTP_Response` writes the header of a reply with a limit of 256 bytes, copies the contents of
the file behind it and sends the sum of the two lengths. `sendHttpResponse_received` says that a
client that reads lines up to the empty one, and then as many bytes as `Content-Length` announces,
has the contents of the file, whatever bytes they are. The file that `lookupFile` names is opened in
the directory of the server; `ftell` and `fread` do not fail. As in
`Coursework.HttpServer.Directory`, `string_To_Lowercase` is taken as what its name says.
-/

namespace Coursework.HttpServer

/-- The bytes of a literal. -/
def bytes (literal : String) : Text :=
  literal.toList.map fun c => UInt8.ofNat c.toNat

/-- What stops the server. -/
inductive Stop where
  | fault (fault : Fault)
  /-- A sum of type `int` is too large. -/
  | overflow
  /-- The length given to `new` is negative. -/
  | badLength
  | exit
  deriving DecidableEq

/-- The directory that `readdir` lists, and the files that `fopen` opens. -/
structure Disk where
  entries : List Text
  fopen : Text → Option Text

/-- `get_Extension`. -/
def getExtension (resource : Text) : Text :=
  if resource = errorPage then bytes "text/html"
  else if find (bytes ".html") resource ≠ npos then bytes "text/html"
  else if find (bytes ".htm") resource ≠ npos then bytes "text/html"
  else if find (bytes ".txt") resource ≠ npos then bytes "text/html"
  else if find (bytes ".jpg") resource ≠ npos then bytes "image/jpg"
  else if find (bytes ".jpeg") resource ≠ npos then bytes "image/jpeg"
  else if find (bytes ".png") resource ≠ npos then bytes "image/png"
  else if find (bytes ".gif") resource ≠ npos then bytes "image/gif"
  else bytes "application/x-binary"

/-- The text that `snprintf` formats. -/
def header (ext : Text) (fileLen : Int) : Text :=
  bytes "HTTP/1.1 200 OK\nDate: yyy\nServer: Zyphr/1.0.0\nLast-Modified: xxx\n" ++
    bytes "ETag: \"56d-9989200-1132c580\"\nContent-Type: " ++ ext ++ bytes "\nContent-Length: " ++
    (Stdio.decimal fileLen).map (fun c => UInt8.ofNat c.toNat) ++
    bytes "\nAccept-Ranges: bytes\nConnection: close\n\n"

/-- `new char [length]`, with what the memory holds. -/
def newChar (memory : Nat → UInt8) (length : Int) : Except Stop Text :=
  if 2147483647 < length then .error .overflow
  else if length < 0 then .error .badLength
  else .ok ((List.range length.toNat).map memory)

/-- The first characters of an array. -/
def load (array : Text) (count : Nat) : Except Stop Text :=
  if count ≤ array.length then .ok (array.take count) else .error (.fault .outOfBounds)

/-- Write to an array. -/
def store (array : Text) (place : Nat) (data : Text) : Except Stop Text :=
  if place + data.length ≤ array.length then
    .ok (array.take place ++ data ++ array.drop (place + data.length))
  else .error (.fault .outOfBounds)

/-- `snprintf` returns the length of the whole text. -/
def snprintf (array : Text) (size : Nat) (text : Text) : Except Stop (Text × Nat) := do
  let array ← store array 0 (text.take (size - 1) ++ [0])
  pure (array, text.length)

/-- The part of `send_HTTP_Response` behind `fopen`: what is given to `send`. -/
def replyMessage (memory : Nat → UInt8) (ext contents : Text) : Except Stop Text := do
  let fileLen := toInt contents.length
  let replyMsg ← newChar memory (fileLen + 257)
  let data ← newChar memory (fileLen + 1)
  -- `fread`
  let data ← store data 0 (contents.take (toSize fileLen))
  let (replyMsg, hlen) ← snprintf replyMsg 256 (header ext fileLen)
  -- `memcpy`
  let read ← load data (toSize fileLen)
  let replyMsg ← store replyMsg hlen read
  load replyMsg (toSize (hlen + fileLen))

/-- `send_HTTP_Response`. -/
def sendHttpResponse (disk : Disk) (memory : Nat → UInt8) (message : Text) : Except Stop Text := do
  let filename ← (getFileName message []).mapError .fault
  let resource := lookupFile disk.entries filename
  let contents ← (disk.fopen resource).elim (.error .exit) .ok
  replyMessage memory (getExtension resource) contents

/-! ## What has to be shown -/

/-- The lines up to the first empty one, and what is behind it; `line` is the part of the current
line that has been read. -/
def readHead (line : Text) : Text → Option (List Text × Text)
  | [] => none
  | c :: text =>
      if c ≠ newline then readHead (line ++ [c]) text
      else if line = [] then some ([], text)
      else (readHead [] text).map fun head => (line :: head.1, head.2)

/-- The value of a field of the header. -/
def field (name : Text) (lines : List Text) : Option Text :=
  lines.findSome? fun line => line.dropPrefix? name

/-- A number in decimal. -/
def number (text : Text) : Nat :=
  Nat.ofDigitChars 10 (text.map fun c => Char.ofNat c.toNat) 0

/-- What a client makes of a reply: the type and the contents of the file. -/
def received (reply : Text) : Option (Text × Text) := do
  let (lines, body) ← readHead [] reply
  let type ← field (bytes "Content-Type: ") lines
  let length ← field (bytes "Content-Length: ") lines
  if number length ≤ body.length then some (type, body.take (number length)) else none

/-- How much of a file is read: `fileLen` is of type `int`. -/
def readLength (length : Nat) : Nat :=
  length % 4294967296

/-- The length of the file and the space for the header are a sum of type `int`. -/
def Fits (length : Nat) : Prop :=
  readLength length + 257 < 2147483648

instance (length : Nat) : Decidable (Fits length) :=
  inferInstanceAs (Decidable (readLength length + 257 < 2147483648))

/-- What the message asks for: the name of the file and its contents. -/
def Asks (disk : Disk) (message resource contents : Text) : Prop :=
  ∃ filename, getFileName message [] = .ok filename ∧ lookupFile disk.entries filename = resource ∧
    disk.fopen resource = some contents

section Proofs

variable {disk : Disk} {memory : Nat → UInt8}
variable {message filename contents reply ext array text : Text}

/-! ## The header -/

/-- The bytes of a number. -/
def digits (n : Nat) : Text :=
  (Nat.toDigits 10 n).map fun c => UInt8.ofNat c.toNat

/-- The lines of the header. -/
def headLines (ext : Text) (length : Nat) : List Text :=
  [bytes "HTTP/1.1 200 OK", bytes "Date: yyy", bytes "Server: Zyphr/1.0.0",
    bytes "Last-Modified: xxx", bytes "ETag: \"56d-9989200-1132c580\"",
    bytes "Content-Type: " ++ ext, bytes "Content-Length: " ++ digits length,
    bytes "Accept-Ranges: bytes", bytes "Connection: close"]

theorem decimal_natCast (n : Nat) : Stdio.decimal n = Nat.toDigits 10 n := by
  rw [Stdio.decimal, if_neg (by omega), Int.natAbs_natCast]

/-- The header is its lines and an empty one. -/
theorem header_eq (ext : Text) (length : Nat) :
    header ext length = (headLines ext length).flatMap (· ++ [newline]) ++ [newline] := by
  have hfront : bytes "HTTP/1.1 200 OK\nDate: yyy\nServer: Zyphr/1.0.0\nLast-Modified: xxx\n" =
      bytes "HTTP/1.1 200 OK" ++ newline :: (bytes "Date: yyy" ++ newline ::
        (bytes "Server: Zyphr/1.0.0" ++ newline :: (bytes "Last-Modified: xxx" ++ [newline]))) := by
    decide
  have htag : bytes "ETag: \"56d-9989200-1132c580\"\nContent-Type: " =
      bytes "ETag: \"56d-9989200-1132c580\"" ++ newline :: bytes "Content-Type: " := by decide
  have hlength : bytes "\nContent-Length: " = newline :: bytes "Content-Length: " := by decide
  have hend : bytes "\nAccept-Ranges: bytes\nConnection: close\n\n" =
      newline :: (bytes "Accept-Ranges: bytes" ++ newline ::
        (bytes "Connection: close" ++ [newline, newline])) := by decide
  rw [header, hfront, htag, hlength, hend, decimal_natCast]
  simp only [headLines, digits, List.flatMap_cons, List.flatMap_nil, List.append_assoc,
    List.cons_append, List.nil_append]

/-- The type of a file is one of six texts. -/
theorem getExtension_mem (resource : Text) :
    getExtension resource ∈ [bytes "text/html", bytes "image/jpg", bytes "image/jpeg",
      bytes "image/png", bytes "image/gif", bytes "application/x-binary"] := by
  unfold getExtension
  split_ifs <;> simp

/-- It is short and has no line end. -/
theorem getExtension_line (resource : Text) :
    (getExtension resource).length ≤ 20 ∧ newline ∉ getExtension resource := by
  have hall : ∀ ext ∈ [bytes "text/html", bytes "image/jpg", bytes "image/jpeg",
      bytes "image/png", bytes "image/gif", bytes "application/x-binary"],
      ext.length ≤ 20 ∧ newline ∉ ext := by decide
  exact hall _ (getExtension_mem resource)

/-- The byte of a digit. -/
theorem toNat_digit {n : Nat} {c : Char} (h : c ∈ Nat.toDigits 10 n) :
    (UInt8.ofNat c.toNat).toNat = c.toNat ∧ 48 ≤ c.toNat := by
  have hdigit := Nat.isDigit_of_mem_toDigits (by decide) (by decide) h
  rw [Char.isDigit_iff_toNat] at hdigit
  have hzero : '0'.toNat = 48 := rfl
  have hnine : '9'.toNat = 57 := rfl
  rw [UInt8.toNat_ofNat']
  omega

/-- A client reads the number that was printed. -/
theorem number_digits (n : Nat) : number (digits n) = n := by
  have hsame : (digits n).map (fun c => Char.ofNat c.toNat) = Nat.toDigits 10 n := by
    rw [digits, List.map_map]
    refine (List.map_congr_left fun c hc => ?_).trans (List.map_id _)
    show Char.ofNat (UInt8.ofNat c.toNat).toNat = c
    rw [(toNat_digit hc).1, Char.ofNat_toNat]
  rw [number, hsame, Nat.ofDigitChars_ten_toDigits]

theorem newline_not_mem_digits (n : Nat) : newline ∉ digits n := by
  intro h
  obtain ⟨c, hc, heq⟩ := List.mem_map.1 h
  obtain ⟨hsame, hle⟩ := toNat_digit hc
  rw [heq] at hsame
  have hten : newline.toNat = 10 := rfl
  omega

/-- A number of type `int` has at most ten digits. -/
theorem length_digits_le {n : Nat} (h : n < 2147483648) : (digits n).length ≤ 10 := by
  rw [digits, List.length_map]
  exact (Nat.length_toDigits_le_iff (by decide) (by decide)).2 (by omega)

/-- The header is never cut off. -/
theorem length_header_lt {length : Nat} (hext : ext.length ≤ 20) (h : length < 2147483648) :
    (header ext length).length < 256 := by
  have hdigits : (digits length).length ≤ 10 := length_digits_le h
  have hfront : (bytes "HTTP/1.1 200 OK\nDate: yyy\nServer: Zyphr/1.0.0\nLast-Modified: xxx\n" ++
      bytes "ETag: \"56d-9989200-1132c580\"\nContent-Type: ").length = 108 := by decide
  have hlength : (bytes "\nContent-Length: ").length = 17 := by decide
  have hend : (bytes "\nAccept-Ranges: bytes\nConnection: close\n\n").length = 41 := by decide
  rw [header, decimal_natCast, List.length_append, List.length_append, List.length_append,
    List.length_append, hfront, hlength, hend]
  show 108 + ext.length + 17 + (digits length).length + 41 < 256
  omega

/-! ## What the client reads -/

/-- A line is read up to its end. -/
theorem readHead_line {line : Text} (hline : newline ∉ line) (read text : Text) :
    readHead read (line ++ newline :: text) =
      if read ++ line = [] then some ([], text)
      else (readHead [] text).map fun head => ((read ++ line) :: head.1, head.2) := by
  induction line generalizing read with
  | nil => rw [List.nil_append, List.append_nil, readHead, if_neg (not_not_intro rfl)]
  | cons c line ih =>
      obtain ⟨hc, hmem⟩ := List.ne_and_not_mem_of_not_mem_cons hline
      rw [List.cons_append, readHead, if_pos (Ne.symm hc), ih hmem, List.append_assoc]
      rfl

/-- The lines of a header are found, and the first byte behind the empty line. -/
theorem readHead_lines {lines : List Text} (h : ∀ line ∈ lines, line ≠ [] ∧ newline ∉ line)
    (body : Text) :
    readHead [] (lines.flatMap (· ++ [newline]) ++ newline :: body) = some (lines, body) := by
  induction lines with
  | nil => rfl
  | cons line lines ih =>
      obtain ⟨⟨hne, hline⟩, hlines⟩ := List.forall_mem_cons.1 h
      have hsplit : (line :: lines).flatMap (· ++ [newline]) ++ newline :: body =
          line ++ newline :: (lines.flatMap (· ++ [newline]) ++ newline :: body) := by simp
      rw [hsplit, readHead_line hline, List.nil_append, if_neg hne, ih hlines]
      rfl

theorem field_cons_of_prefix (name value : Text) (lines : List Text) :
    field name ((name ++ value) :: lines) = some value := by
  have hvalue : (name ++ value).dropPrefix? name = some value :=
    List.dropPrefix?_eq_some_iff.2 ⟨name, rfl, beq_self_eq_true name⟩
  rw [field, List.findSome?_cons, hvalue]

theorem field_cons_of_not_prefix {name line : Text} (h : line.dropPrefix? name = none)
    (lines : List Text) : field name (line :: lines) = field name lines := by
  rw [field, List.findSome?_cons, h]
  rfl

/-- The two fields that the client needs. -/
theorem field_headLines (ext : Text) (length : Nat) :
    field (bytes "Content-Type: ") (headLines ext length) = some ext ∧
      field (bytes "Content-Length: ") (headLines ext length) = some (digits length) := by
  have hothers : ∀ line ∈ [bytes "HTTP/1.1 200 OK", bytes "Date: yyy", bytes "Server: Zyphr/1.0.0",
      bytes "Last-Modified: xxx", bytes "ETag: \"56d-9989200-1132c580\""],
      line.dropPrefix? (bytes "Content-Type: ") = none ∧
        line.dropPrefix? (bytes "Content-Length: ") = none := by decide
  have htype : (bytes "Content-Type: " ++ ext).dropPrefix? (bytes "Content-Length: ") = none := rfl
  simp only [List.forall_mem_cons] at hothers
  obtain ⟨hstatus, hdate, hserver, hmodified, htag, -⟩ := hothers
  constructor
  · rw [headLines, field_cons_of_not_prefix hstatus.1, field_cons_of_not_prefix hdate.1,
      field_cons_of_not_prefix hserver.1, field_cons_of_not_prefix hmodified.1,
      field_cons_of_not_prefix htag.1, field_cons_of_prefix]
  · rw [headLines, field_cons_of_not_prefix hstatus.2, field_cons_of_not_prefix hdate.2,
      field_cons_of_not_prefix hserver.2, field_cons_of_not_prefix hmodified.2,
      field_cons_of_not_prefix htag.2, field_cons_of_not_prefix htype, field_cons_of_prefix]

/-- Each line of the header is one. -/
theorem headLines_lines (hext : newline ∉ ext) (length : Nat) :
    ∀ line ∈ headLines ext length, line ≠ [] ∧ newline ∉ line := by
  have hothers : ∀ line ∈ [bytes "HTTP/1.1 200 OK", bytes "Date: yyy", bytes "Server: Zyphr/1.0.0",
      bytes "Last-Modified: xxx", bytes "ETag: \"56d-9989200-1132c580\"",
      bytes "Accept-Ranges: bytes", bytes "Connection: close"],
      line ≠ [] ∧ newline ∉ line := by decide
  have hfield : ∀ name value : Text, name ≠ [] → newline ∉ name → newline ∉ value →
      name ++ value ≠ [] ∧ newline ∉ name ++ value := by
    intro name value hne hname hvalue
    refine ⟨List.append_ne_nil_of_left_ne_nil hne value, ?_⟩
    rw [List.mem_append, not_or]
    exact ⟨hname, hvalue⟩
  have htype := hfield (bytes "Content-Type: ") ext (by decide) (by decide) hext
  have hlength := hfield (bytes "Content-Length: ") (digits length) (by decide) (by decide)
    (newline_not_mem_digits length)
  simp only [List.forall_mem_cons] at hothers
  obtain ⟨hstatus, hdate, hserver, hmodified, htag, hranges, hclose, -⟩ := hothers
  simp only [headLines, List.forall_mem_cons]
  exact ⟨hstatus, hdate, hserver, hmodified, htag, htype, hlength, hranges, hclose,
    List.forall_mem_nil _⟩

/-- A client reads the type and the contents of the file from the reply. -/
theorem received_reply (hext : newline ∉ ext) (contents : Text) :
    received (header ext contents.length ++ contents) = some (ext, contents) := by
  obtain ⟨htype, hlength⟩ := field_headLines ext contents.length
  have hhead : readHead [] (header ext contents.length ++ contents) =
      some (headLines ext contents.length, contents) := by
    rw [header_eq, List.append_assoc]
    exact readHead_lines (headLines_lines hext contents.length) contents
  show (readHead [] _ >>= _) = _
  simp only [hhead, Option.bind_eq_bind, Option.bind_some, htype, hlength, number_digits,
    if_pos (Nat.le_refl contents.length), List.take_length]

/-- It has as much of a file as is read. -/
theorem received_take (hext : newline ∉ ext) (contents : Text) :
    received (header ext (readLength contents.length) ++
        contents.take (readLength contents.length)) =
      some (ext, contents.take (readLength contents.length)) := by
  have hle : readLength contents.length ≤ contents.length := Nat.mod_le _ _
  have hread := received_reply hext (contents.take (readLength contents.length))
  rwa [List.length_take_of_le hle] at hread

/-! ## What the server sends -/

theorem newChar_natCast {length : Nat} (h : length < 2147483648) :
    newChar memory length = .ok ((List.range length).map memory) := by
  rw [newChar, if_neg (by omega), if_neg (by omega), Int.toNat_natCast]

/-- What is in front of the place stays. -/
theorem store_eq (array : Text) (place : Nat) (data : Text)
    (h : place + data.length ≤ array.length) :
    ∃ rest, store array place data = .ok (array.take place ++ data ++ rest) ∧
      place + data.length + rest.length = array.length := by
  refine ⟨array.drop (place + data.length), by rw [store, if_pos h], ?_⟩
  rw [List.length_drop]
  omega

theorem load_append (data rest : Text) : load (data ++ rest) data.length = .ok data := by
  rw [load, if_pos (by simp), List.take_left]

/-- A text shorter than the limit is written with its terminator. -/
theorem snprintf_eq {size : Nat} (h : text.length < size) (array : Text)
    (hsize : size ≤ array.length) :
    ∃ rest, snprintf array size text = .ok (text ++ 0 :: rest, text.length) ∧
      text.length + 1 + rest.length = array.length := by
  have htext : text.take (size - 1) = text := List.take_of_length_le (by omega)
  obtain ⟨rest, hstore, hlength⟩ :=
    store_eq array 0 (text ++ [0]) (by simp; omega)
  refine ⟨rest, ?_, by simpa using hlength⟩
  rw [snprintf, htext, hstore]
  simp only [List.take_zero, List.nil_append, List.append_assoc, List.cons_append]
  rfl

theorem toInt_of_fits {length : Nat} (h : Fits length) :
    toInt length = readLength length := by
  rw [Fits, readLength] at h
  rw [toInt, if_pos (by omega), readLength]

theorem toSize_natCast {length : Nat} (h : length < 18446744073709551616) :
    toSize length = length := by
  rw [toSize]
  omega

/-- The contents are behind the header in the memory for the reply. -/
theorem replyMessage_eq (hext : ext.length ≤ 20) (hfits : Fits contents.length)
    (memory : Nat → UInt8) :
    replyMessage memory ext contents =
      .ok (header ext (readLength contents.length) ++
        contents.take (readLength contents.length)) := by
  have hfileLen := toInt_of_fits hfits
  rw [Fits] at hfits
  have hle : readLength contents.length ≤ contents.length := Nat.mod_le _ _
  generalize readLength contents.length = length at hfileLen hfits hle ⊢
  have htaken : (contents.take length).length = length := List.length_take_of_le hle
  have hheader : (header ext length).length < 256 := length_header_lt hext (by omega)
  have hreplyMsg : newChar memory (length + 257) =
      .ok ((List.range (length + 257)).map memory) := newChar_natCast hfits
  have hdata : newChar memory (length + 1) = .ok ((List.range (length + 1)).map memory) :=
    newChar_natCast (show length + 1 < 2147483648 by omega)
  -- reading the file
  obtain ⟨rest, hfread, -⟩ := store_eq ((List.range (length + 1)).map memory) 0
    (contents.take length) (by simp [htaken])
  rw [List.take_zero, List.nil_append] at hfread
  have hread := load_append (contents.take length) rest
  rw [htaken] at hread
  -- the header
  obtain ⟨rest', hsnprintf, hspace⟩ :=
    snprintf_eq hheader ((List.range (length + 257)).map memory) (by simp)
  rw [List.length_map, List.length_range] at hspace
  -- copying the contents
  have hroom : (header ext length).length + (contents.take length).length ≤
      (header ext length ++ 0 :: rest').length := by
    rw [htaken, List.length_append, List.length_cons]
    omega
  obtain ⟨rest'', hmemcpy, -⟩ := store_eq _ _ _ hroom
  rw [List.take_left] at hmemcpy
  have hsend := load_append (header ext length ++ contents.take length) rest''
  rw [List.length_append, htaken] at hsend
  have hsize : toSize ((header ext length).length + length) = (header ext length).length + length :=
    toSize_natCast (by omega)
  simp only [replyMessage, hfileLen, hreplyMsg, hdata, toSize_natCast (show length < _ by omega),
    hfread, hsnprintf, hread, hmemcpy, hsize, hsend, Bind.bind, Except.bind]

theorem newChar_of_neg {n : Int} (h : n < 0) (memory : Nat → UInt8) :
    newChar memory n = .error .badLength := by
  rw [newChar, if_neg (by omega), if_pos h]

/-- Other lengths stop the server. -/
theorem fits_of_replyMessage (hsent : replyMessage memory ext contents = .ok reply) :
    Fits contents.length := by
  rw [Fits, readLength]
  by_contra hfits
  by_cases hsmall : contents.length % 4294967296 < 2147483648
  · -- the space for the header does not fit
    have hfileLen : toInt contents.length = (contents.length % 4294967296 : Nat) := if_pos hsmall
    have hreplyMsg : newChar memory (toInt contents.length + 257) = .error .overflow := by
      rw [hfileLen, newChar, if_pos (by omega)]
    simp only [replyMessage, hreplyMsg, Bind.bind, Except.bind] at hsent
    cases hsent
  -- the length is negative
  have hfileLen : toInt contents.length =
      (contents.length % 4294967296 : Nat) - 4294967296 := if_neg hsmall
  by_cases hheader : toInt contents.length + 257 < 0
  · simp only [replyMessage, newChar_of_neg hheader, Bind.bind, Except.bind] at hsent
    cases hsent
  have hreplyMsg : newChar memory (toInt contents.length + 257) =
      .ok ((List.range (toInt contents.length + 257).toNat).map memory) := by
    rw [newChar, if_neg (by omega), if_neg hheader]
  by_cases hdata : toInt contents.length + 1 < 0
  · simp only [replyMessage, hreplyMsg, newChar_of_neg hdata, Bind.bind, Except.bind] at hsent
    cases hsent
  -- an array without elements is left, and `fread` writes to it
  have hlast : toInt contents.length = -1 := by omega
  have hnone : newChar memory (-1 + 1) = .ok [] := rfl
  have hcount : toSize (-1) = 18446744073709551615 := rfl
  have hfread : store [] 0 (contents.take (toSize (-1))) = .error (.fault .outOfBounds) := by
    rw [store, if_neg]
    rw [hcount, List.length_take, List.length_nil]
    omega
  rw [hlast] at hreplyMsg
  simp only [replyMessage, hlast, hreplyMsg, hnone, hfread, Bind.bind, Except.bind] at hsent
  cases hsent

/-- What is sent for a message. -/
theorem sendHttpResponse_ok_iff (disk : Disk) (memory : Nat → UInt8) (message reply : Text) :
    sendHttpResponse disk memory message = .ok reply ↔
      ∃ resource contents, Asks disk message resource contents ∧ Fits contents.length ∧
        reply = header (getExtension resource) (readLength contents.length) ++
          contents.take (readLength contents.length) := by
  constructor
  · intro hsent
    cases hname : getFileName message [] with
    | error fault =>
        simp only [sendHttpResponse, hname, Except.mapError, Bind.bind, Except.bind] at hsent
        cases hsent
    | ok filename =>
        cases hfile : disk.fopen (lookupFile disk.entries filename) with
        | none =>
            simp only [sendHttpResponse, hname, hfile, Except.mapError, Option.elim_none, Bind.bind,
              Except.bind] at hsent
            cases hsent
        | some contents =>
            simp only [sendHttpResponse, hname, hfile, Except.mapError, Option.elim_some, Bind.bind,
              Except.bind] at hsent
            have hfits := fits_of_replyMessage hsent
            rw [replyMessage_eq (getExtension_line _).1 hfits] at hsent
            exact ⟨_, contents, ⟨filename, hname, rfl, hfile⟩, hfits, (Except.ok.inj hsent).symm⟩
  · rintro ⟨resource, contents, ⟨filename, hname, rfl, hfile⟩, hfits, rfl⟩
    rw [← replyMessage_eq (getExtension_line _).1 hfits memory]
    simp only [sendHttpResponse, hname, hfile, Except.mapError, Option.elim_some, Bind.bind,
      Except.bind]

/-- A client reads the type and the contents of the file from what the server sends, whatever bytes
they are, if the length for the array is an `int`. Of a file from 4 GiB on it has only the part that
is read. -/
theorem sendHttpResponse_received {resource : Text} (hasks : Asks disk message resource contents)
    (hfits : Fits contents.length) (memory : Nat → UInt8) :
    ∃ reply, sendHttpResponse disk memory message = .ok reply ∧
      received reply =
        some (getExtension resource, contents.take (readLength contents.length)) ∧
      (contents.length < 4294967296 → contents.take (readLength contents.length) = contents) := by
  refine ⟨_, (sendHttpResponse_ok_iff disk memory message _).2
    ⟨resource, contents, hasks, hfits, rfl⟩, received_take (getExtension_line resource).2 contents,
    fun hlength => ?_⟩
  rw [readLength, Nat.mod_eq_of_lt hlength, List.take_length]

/-- A directory with one file of two empty lines and a null byte. -/
def smallDisk : Disk where
  entries := [bytes "a.txt"]
  fopen := fun _ => some [10, 10, 0]

theorem sendHttpResponse_small :
    ∃ reply, sendHttpResponse smallDisk (fun _ => 0) (bytes "GET /a.txt HTTP/1.1\r\n\r\n") =
        .ok reply ∧
      received reply =
        some (getExtension (bytes "a.txt"),
          [10, 10, 0].take (readLength [(10 : UInt8), 10, 0].length)) ∧
      ([(10 : UInt8), 10, 0].length < 4294967296 →
        [10, 10, 0].take (readLength [(10 : UInt8), 10, 0].length) = [(10 : UInt8), 10, 0]) :=
  sendHttpResponse_received ⟨bytes "a.txt", by decide, by decide, rfl⟩ (by decide) fun _ => 0

end Proofs

end Coursework.HttpServer
