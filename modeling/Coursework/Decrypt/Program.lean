import Mathlib.Data.List.Basic
import Mathlib.Data.Nat.Notation

/-!
# The search for a crib

`decrypt` of `decrypt.cpp` and the functions it calls. A C string is the list of the characters in
front of its NUL, and a word array is a list of rows. An access outside an array is `none`, and so
is a search whose outer loop makes more rounds than `fuel` allows. `wordOrder` does not set the
length of a row without a NUL, so the new array keeps what was in its memory. The output on `cerr`
is left out.
-/

namespace Coursework.Decrypt

/-- `cstring[k]`. -/
def charAt (cstring : List Char) (k : Nat) : Option Char :=
  (cstring ++ ['\x00'])[k]?

/-- `cstring[k - 1]`. -/
def charBefore (cstring : List Char) (k : Nat) : Option Char :=
  if k = 0 then none else charAt cstring (k - 1)

/-- `countWords`. -/
def countWords (cstring : List Char) : Nat :=
  (List.range cstring.length).countP fun k =>
    (charAt cstring k).any Char.isAlpha && !(charAt cstring (k + 1)).any Char.isAlpha

/-! ## The word array -/

/-- The number of columns. -/
def nCols : Nat := 81

/-- The loop over the columns of a row in `createWordArray`: the cells that were passed and the
value of `placeIndicator`. -/
def fillRow (cstring : List Char) : Nat → List Char → Nat → Option (List Char × Nat)
  | 0, cells, placeIndicator => some (cells, placeIndicator)
  | columns + 1, cells, placeIndicator => do
      let c ← charAt cstring placeIndicator
      if c.isAlpha then fillRow cstring columns (cells ++ [c]) (placeIndicator + 1)
      else if c = '\n' then do
        let before ← charBefore cstring placeIndicator
        if before.isAlpha then some (cells ++ ['*'], placeIndicator + 1)
        else fillRow cstring columns (cells ++ ['*']) (placeIndicator + 1)
      else if cells = [] ∨ cells.getLast? = some '*' then
        fillRow cstring columns (cells ++ ['.']) (placeIndicator + 1)
      else do
        let before ← charBefore cstring placeIndicator
        if before.isAlpha then some (cells ++ ['\x00'], placeIndicator + 1)
        else fillRow cstring columns (cells ++ ['\x00']) (placeIndicator + 1)

/-- A row was filled with NULs before. -/
def row (cells : List Char) : List Char :=
  cells ++ List.replicate (nCols - cells.length) '\x00'

/-- The loop over the rows. -/
def fillRows (cstring : List Char) : Nat → Nat → Option (List (List Char))
  | 0, _ => some []
  | rows + 1, placeIndicator => do
      let (cells, placeIndicator) ← fillRow cstring nCols [] placeIndicator
      let rest ← fillRows cstring rows placeIndicator
      some (row cells :: rest)

/-- `createWordArray`. -/
def createWordArray (cstring : List Char) : Option (List (List Char)) :=
  fillRows cstring (countWords cstring) 0

/-- `wordOrder`. -/
def wordOrder (memory : Nat → Int) (words : List (List Char)) : List Int :=
  words.mapIdx fun k cells =>
    if '\x00' ∈ cells then ((cells.takeWhile (· ≠ '\x00')).countP Char.isAlpha : Int) else memory k

/-! ## The tests -/

/-- `justLetters`: the new array, of `nCols` characters for each row. -/
def justLetters (starPos : Nat) (wordsArray : List (List Char)) (nRows : Nat) :
    Option (List Char) :=
  if starPos + nRows ≤ wordsArray.length then
    let letters := ((wordsArray.drop starPos).take nRows).flatMap fun cells =>
      (cells.takeWhile (· ≠ '\x00')).filter Char.isAlpha
    some (letters ++ List.replicate (nCols * nRows - letters.length) '\x00')
  else none

/-- `strlen` of an array. -/
def strlen (array : List Char) : Option Nat :=
  if '\x00' ∈ array then some (array.takeWhile (· ≠ '\x00')).length else none

/-- The tests of `isSimpleSub` on two places. -/
def isSimpleAt (cipher crib : List Char) (k j : Nat) : Bool :=
  let sameCipher := (cipher.getD k '\x00').toUpper == (cipher.getD j '\x00').toUpper
  let sameCrib := (crib.getD k '\x00').toUpper == (crib.getD j '\x00').toUpper
  !(sameCipher && !sameCrib) && !(sameCrib && !sameCipher)

/-- `isSimpleSub`. -/
def isSimpleSub (cipher crib : List Char) : Option Bool := do
  let n ← strlen cipher
  if n ≤ crib.length then
    some ((List.range n).all fun k => (List.range' k (n - k)).all fun j =>
      k == j || isSimpleAt cipher crib k j)
  else none

/-- `containsNewline`. -/
def containsNewline (cipherWords : List (List Char)) (startRow nRows : Nat) : Option Bool :=
  if startRow + nRows ≤ cipherWords.length then
    some ((List.range' startRow nRows).any fun k => (List.range nCols).any fun j =>
      (cipherWords.getD k []).getD j '\x00' == '*' && !(k == startRow && j == 0) &&
        !(k + 1 == nRows && j + 1 == nCols))
  else none

/-! ## The search -/

section FindMatch

variable (cipherWordLengths cribWordLengths : List Int)

/-- The inner loop of `findMatch`: `cipherPosIndex`, `matchCounter` and whether a word of the length
was found. -/
def scanWords (i : Nat) : Nat → Nat → Int → Option (Nat × Int × Bool)
  | 0, cipherPosIndex, matchCounter => some (cipherPosIndex, matchCounter, false)
  | rounds + 1, j, matchCounter => do
      let cipherLength ← cipherWordLengths[j]?
      let cribLength ← cribWordLengths[i]?
      if cipherLength = cribLength then some (j + 1, matchCounter - 1, true)
      else do
        -- the subscripts have changed places
        let cipherLength ← cipherWordLengths[i]?
        let cribLength ← cribWordLengths[j]?
        scanWords i rounds (j + 1)
          (if cipherLength ≠ cribLength then cribWordLengths.length else matchCounter)

variable (cipherWords : List (List Char)) (justCribLetters : List Char)

/-- The tests of a possible match. -/
def isMatch (startPos : Nat) : Option Bool := do
  let justCipherLetters ← justLetters startPos cipherWords cribWordLengths.length
  let newline ← containsNewline cipherWords startPos cribWordLengths.length
  if newline then some false else isSimpleSub justCipherLetters justCribLetters

/-- The outer loop of `findMatch`. The result is the row where the match starts, none for -1. -/
def searchWords : Nat → Nat → Nat → Int → Option (Option Nat)
  | 0, _, _, _ => none
  | fuel + 1, i, cipherPosIndex, matchCounter =>
      if i < cribWordLengths.length then do
        let (cipherPosIndex, matchCounter, found) ← scanWords cipherWordLengths cribWordLengths i
          (cipherWordLengths.length - cipherPosIndex) cipherPosIndex matchCounter
        if found ∧ matchCounter = 0 then do
          let startPos := cipherPosIndex - cribWordLengths.length
          let passes ← isMatch cribWordLengths cipherWords justCribLetters startPos
          if passes then some (some startPos)
          else
            searchWords fuel 0 (cipherPosIndex - (cribWordLengths.length - 1))
              cribWordLengths.length
        else searchWords fuel (i + 1) cipherPosIndex matchCounter
      else some none

/-- `findMatch`. -/
def findMatch (cribWords : List (List Char)) : Option (Option Nat) := do
  let justCribLetters ← justLetters 0 cribWords cribWordLengths.length
  searchWords cipherWordLengths cribWordLengths cipherWords justCribLetters
    ((cipherWordLengths.length + 1) * (cribWordLengths.length + 1)) 0 0 cribWordLengths.length

end FindMatch

/-! ## Decryption -/

/-- The loop of `exchangeLetters` over the letters of the key. -/
def exchangeLetter (cipherJustLetters cribJustLetters : List Char) :
    Nat → Nat → Char → Option Char
  | 0, _, c => some c
  | rounds + 1, j, c => do
      let letter ← cipherJustLetters[j]?
      if c.toUpper = letter.toUpper then cribJustLetters[j]?
      else exchangeLetter cipherJustLetters cribJustLetters rounds (j + 1) c.toLower

/-- `exchangeLetters`. -/
def exchangeLetters (cipherJustLetters cribJustLetters dupCipherText : List Char) (len : Nat) :
    Option (List Char) :=
  dupCipherText.mapM fun c =>
    if c.isAlpha then exchangeLetter cipherJustLetters cribJustLetters len 0 c else some c

/-- The loop that looks for a letter in the ciphertext. It sets `count` back in every round, so it
looks at the first character only. -/
def lacksLetters (ciphertext : List Char) : Bool :=
  ciphertext.length == 1 && !(charAt ciphertext 0).any Char.isAlpha

/-- The part of `decrypt` behind a match. -/
def exchangeMatch (cipherWords cribWords : List (List Char)) (nRows startPosition : Nat)
    (ciphertext : List Char) : Option (List Char) := do
  let justCribLettersKey ← justLetters 0 cribWords nRows
  let justCipherLettersKey ← justLetters startPosition cipherWords nRows
  let keyLength ← strlen justCribLettersKey
  let key := (justCribLettersKey.take keyLength).map Char.toUpper ++
    justCribLettersKey.drop keyLength
  exchangeLetters justCipherLettersKey key ciphertext keyLength

/-- The part of `decrypt` behind the preliminary testing. -/
def decryptWords (cipherMemory cribMemory : Nat → Int) (ciphertext crib : List Char) :
    Option Bool := do
  let cipherWords ← createWordArray ciphertext
  let cribWords ← createWordArray crib
  let cipherWordLengths := wordOrder cipherMemory cipherWords
  let cribWordLengths := wordOrder cribMemory cribWords
  match ← findMatch cipherWordLengths cribWordLengths cipherWords cribWords with
  | none => some false
  | some startPosition => do
      let _ ← exchangeMatch cipherWords cribWords cribWordLengths.length startPosition ciphertext
      some true

/-- `decrypt`. -/
def decrypt (cipherMemory cribMemory : Nat → Int) (ciphertext crib : List Char) : Option Bool :=
  if crib = [] then some false
  else if crib.length > ciphertext.length then some false
  else if crib.length > 80 then some false
  else if countWords crib > countWords ciphertext then some false
  else if lacksLetters ciphertext then some false
  else decryptWords cipherMemory cribMemory ciphertext crib

end Coursework.Decrypt
