import Coursework.Loops.Counting
import Coursework.Numbers.IntRange
import Coursework.Roster.Sheet
import Coursework.Sorts.Program

/-!
# Arrays of strings

The functions of `array.cpp` that rearrange, compare and search arrays of strings. An array is the
list of the elements that a function may access, and an access outside it is `none`, as is a loop
without an end. Counters do not overflow; the sum of two sizes that do is `none`. A function that
changes an array returns it beside its result. Left out are the messages of `split`.
-/

namespace Coursework.StringArrays

open Loops Numbers Roster Sorts

/-- The characters of a text. -/
def chars (text : List Char) : StdString :=
  text.map fun c => c.toUInt8.toFin

/-- `" *deleted* "`. -/
def deleted : StdString :=
  chars [' ', '*', 'd', 'e', 'l', 'e', 't', 'e', 'd', '*', ' ']

/-! ## Searching -/

/-- A round of the inner loop of `detectSequence`, with `end`. -/
def extendRound (a : List StdString) (target : StdString) (j : Nat) (endAt : Int) :
    Option (Round Int Int) := do
  let x ← a[j]?
  if x = target then some (.next (j : Int)) else some (.leave endAt)

/-- A round of the outer loop of `detectSequence`. -/
def detectRound (a : List StdString) (n : Int) (target : StdString) (k : Nat) (_ : Unit) :
    Option (Round Unit (Bool × Int × Int)) := do
  let x ← a[k]?
  if x = target then
    if (k : Int) = n - 1 then some (.leave (true, (k : Int), (k : Int)))
    else do
      match ← countTo (extendRound a target) (k + 1) n (k : Int) with
      | .next endAt => some (.leave (true, (k : Int), endAt))
      | .leave endAt => some (.leave (true, (k : Int), endAt))
  else some (.next ())

/-- `detectSequence`, with `begin` and `end` after the call. -/
def detectSequence (a : List StdString) (n : Int) (target : StdString) (beginAt endAt : Int) :
    Option (Bool × Int × Int) :=
  if n < 0 then some (false, beginAt, endAt)
  else do
    match ← countTo (detectRound a n target) 0 n () with
    | .next _ => some (false, beginAt, endAt)
    | .leave result => some result

/-- A round of the loop of `detectMin`, with `minIndex` and `minValue`. -/
def minRound (a : List StdString) (k : Nat) (s : Int × StdString) : Option (Int × StdString) := do
  let x ← a[k]?
  let (minIndex, minValue) := if s.2 > x then ((k : Int), x) else s
  if minValue = x ∧ (k : Int) ≠ minIndex then
    if (k : Int) < minIndex then some ((k : Int), minValue) else some (minIndex, minValue)
  else some (minIndex, minValue)

/-- `detectMin`. -/
def detectMin (a : List StdString) (n : Int) : Option Int :=
  if n ≤ 0 then some (-1)
  else do
    let minValue ← a[0]?
    let (minIndex, _) ← repeatTo (minRound a) 0 n (0o101, minValue)
    if minIndex = 0o101 then some (-1) else some minIndex

/-- A round of the inner loop of `contains`. -/
def matchRound (a1 a2 : List StdString) (k j : Nat) (_ : Unit) : Option (Round Unit Nat) := do
  let y ← a2[k]?
  let x ← a1[j]?
  if y = x then some (.leave j) else some (.next ())

/-- A round of the outer loop of `contains`, with `indexPlace` and `matches`. -/
def containsRound (a1 : List StdString) (n1 : Int) (a2 : List StdString) (k : Nat)
    (s : Nat × Int) : Option (Nat × Int) := do
  match ← countTo (matchRound a1 a2 k) s.1 n1 () with
  | .next _ => some s
  | .leave j => some (j + 1, s.2 + 1)

/-- `contains`. -/
def contains (a1 : List StdString) (n1 : Int) (a2 : List StdString) (n2 : Int) : Option Bool :=
  if n1 < 0 ∨ n2 < 0 then some false
  else if n1 < n2 then some false
  else if n2 = 0 then some true
  else do
    let (_, found) ← repeatTo (containsRound a1 n1 a2) 0 n2 (0, 0)
    if found = n2 then some true else some false

/-! ## Moving one element -/

/-- A round of the loop of `moveToBack`. -/
def shiftRound (k : Nat) (a : List StdString) : Option (List StdString) := do
  let x ← a[k + 1]?
  store a k x

/-- `moveToBack`. -/
def moveToBack (a : List StdString) (n pos : Int) : Option (Int × List StdString) :=
  if n < 0 then some (-1, a)
  else if pos > n - 1 then some (-1, a)
  else if pos < 0 then some (-1, a)
  else if n = 0 then some (0, a)
  else if n = 1 then some (0, a)
  else do
    let valueHolder ← a[pos.toNat]?
    let a ← repeatTo shiftRound pos.toNat (n - 1) a
    let a ← store a (n - 1).toNat valueHolder
    some (pos, a)

/-- The loop of `moveToFront`, which counts down. -/
def shiftToRight : Nat → List StdString → Option (List StdString)
  | 0, a => some a
  | k + 1, a => do
      let x ← a[k]?
      let a ← store a (k + 1) x
      shiftToRight k a

/-- `moveToFront`. -/
def moveToFront (a : List StdString) (n pos : Int) : Option (Int × List StdString) :=
  if n < 0 then some (-1, a)
  else if pos > n - 1 then some (-1, a)
  else if pos < 0 then some (-1, a)
  else do
    let valueHolder ← a[pos.toNat]?
    let a ← shiftToRight pos.toNat a
    let a ← store a 0 valueHolder
    some (pos, a)

/-! ## Rearranging -/

/-- `a[begin + j] = " *deleted* "`. -/
def markPlace (beginAt : Int) (j : Nat) (a : List StdString) : Option (List StdString) :=
  store a (beginAt + j).toNat deleted

/-- The loop of `deleteDups` that marks all elements of a sequence but the first. -/
def markSequence (beginAt endAt : Int) (a : List StdString) : Option (List StdString) :=
  let indexGap := endAt - beginAt
  repeatTo (markPlace beginAt) 1 (indexGap + 1) a

/-- A round of the first loop of `deleteDups`. The first call of `detectSequence` gives `begin`
and `end` their values. -/
def markRound (n : Int) (k : Nat) (a : List StdString) :
    Option (Round (List StdString) (List StdString)) := do
  let target ← a[k]?
  let (_, beginAt, endAt) ← detectSequence a n target 0 0
  let (found, beginAt, endAt) ← detectSequence a n target beginAt endAt
  if found then
    if target = deleted then some (.leave a)
    else do
      let a ← markSequence beginAt endAt a
      some (.next a)
  else some (.next a)

/-- A round of the second loop of `deleteDups`, with `retainedItems`. -/
def sweepRound (n : Int) (j : Nat) (s : Int × List StdString) :
    Option (Int × List StdString) := do
  let x ← s.2[j]?
  if x = deleted then do
    let (_, a) ← moveToBack s.2 n j
    some (s.1 - 1, a)
  else some s

/-- `deleteDups`. -/
def deleteDups (a : List StdString) (n : Int) : Option (Int × List StdString) :=
  if n < 0 then some (-1, a)
  else do
    match ← countTo (markRound n) 0 n a with
    | .next a => repeatTo (sweepRound n) 0 n (n, a)
    | .leave a => repeatTo (sweepRound n) 0 n (n, a)

/-- A round of the loops of `meld` that look for an element greater than the one that follows
it. -/
def orderRound (a : List StdString) (k : Nat) (_ : Unit) : Option (Round Unit Unit) := do
  let x ← a[k]?
  let y ← a[k + 1]?
  if x > y then some (.leave ()) else some (.next ())

/-- A round of the loops of `meld` that copy an array to the places from `placeHolder` on. -/
def copyRound (placeHolder : Nat) (a : List StdString) (w : Nat) (result : List StdString) :
    Option (List StdString) := do
  let x ← a[w]?
  store result (w + placeHolder) x

/-- A round of the inner loop of the exchange sort of `meld`. -/
def exchangeRound (w j : Nat) (result : List StdString) : Option (List StdString) := do
  let x ← result[j]?
  let y ← result[w]?
  if x < y then do
    let result ← store result w x
    store result j y
  else some result

/-- The exchange sort of `meld`. -/
def exchangeSort (size : Int) (result : List StdString) : Option (List StdString) :=
  repeatTo (fun w result => repeatTo (exchangeRound w) w size result) 0 size result

/-- The loops of `meld`, which check the order of both arrays, copy them and sort the copies. -/
def meldLoops (a1 : List StdString) (n1 : Int) (a2 : List StdString) (n2 : Int)
    (result : List StdString) (meldedArraySize : Int) : Option (Int × List StdString) := do
  match ← countTo (orderRound a1) 0 (n1 - 1) () with
  | .leave _ => some (-1, result)
  | .next _ =>
    match ← countTo (orderRound a2) 0 (n2 - 1) () with
    | .leave _ => some (-1, result)
    | .next _ =>
      let result ← repeatTo (copyRound 0 a1) 0 n1 result
      let result ← repeatTo (copyRound n1.toNat a2) 0 n2 result
      let result ← exchangeSort meldedArraySize result
      some (meldedArraySize, result)

/-- `meld`. -/
def meld (a1 : List StdString) (n1 : Int) (a2 : List StdString) (n2 : Int)
    (result : List StdString) (max : Int) : Option (Int × List StdString) := do
  let meldedArraySize ← intResult (n1 + n2)
  if n1 < 0 ∨ n2 < 0 ∨ max < 0 then some (-1, result)
  else if meldedArraySize > max then some (-1, result)
  else meldLoops a1 n1 a2 n2 result meldedArraySize

/-- A round of the loop of `split`, with `placeIndicator`. -/
def splitRound (n : Int) (splitter : StdString) (k : Nat) (s : Int × List StdString) :
    Option (Int × List StdString) := do
  let x ← s.2[k]?
  if x < splitter then do
    let (_, a) ← moveToFront s.2 n k
    some (s.1 + 1, a)
  else some s

/-- `split`. -/
def split (a : List StdString) (n : Int) (splitter : StdString) :
    Option (Int × List StdString) :=
  if n < 0 then some (-1, a)
  else repeatTo (splitRound n splitter) 0 n (0, a)

end Coursework.StringArrays
