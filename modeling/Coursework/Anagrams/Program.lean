import Mathlib.Data.List.Basic

/-!
# The anagram finder

`anagrams.cpp`. Strings are lists of characters, of which only equality matters. The array
`results` is a list of slots and the array `dict` a list of words; a function that is called with
an advanced pointer gets the rest of the list. A read or write outside an array or a string is
`none`, and so is a call whose `fuel`, a bound on the depth of the recursion, is too small.
What the functions print to `cerr` is left out.
-/

namespace Coursework.Anagrams

variable {α : Type} [DecidableEq α]

/-- `MAXRESULTS`. -/
def maxResults : Nat := 20

/-- `checkAgainstDict`. -/
def checkAgainstDict (candidateMatch : List α) (dict : List (List α)) (dictSize counter : Int) :
    Option Bool :=
  if counter = dictSize then some false
  else match dict with
    | [] => none
    | entry :: dict =>
        if candidateMatch = entry then some true
        else checkAgainstDict candidateMatch dict dictSize (counter + 1)

/-- `checkAgainstResults`: the returned value, the slots from the pointer on, and `matches`. -/
def checkAgainstResults (candidateMatch : List α) (results : List (List α)) (found counter : Nat)
    (dict : List (List α)) (dictSize : Int) : Option (Int × List (List α) × Nat) :=
  if found = maxResults then some (0, results, found)
  else if counter = found then do
    let listed ← checkAgainstDict candidateMatch dict dictSize 0
    if listed then
      match results with
      | [] => none
      | _ :: slots => some (1, candidateMatch :: slots, found + 1)
    else some (0, results, found)
  else match results with
    | [] => none
    | slot :: slots =>
        if candidateMatch = slot then some (0, slot :: slots, found)
        else do
          let (added, slots, found) ←
            checkAgainstResults candidateMatch slots found (counter + 1) dict dictSize
          some (if added ≠ 0 then 1 else 0, slot :: slots, found)

/-- `swap` of two characters of a string. -/
def swap (word : List α) (i j : Int) : Option (List α) := do
  if i < 0 ∨ j < 0 then none
  else do
    let x ← word[i.toNat]?
    let y ← word[j.toNat]?
    some ((word.set i.toNat y).set j.toNat x)

mutual
/-- `swapLoop`: the slots of `results` and `matches` afterwards. -/
def swapLoop (dict : List (List α)) (dictSize : Int) :
    Nat → (index startingIndex endingIndex max : Int) → List α → List (List α) × Nat →
      Option (List (List α) × Nat)
  | 0, _, _, _, _, _, _ => none
  | fuel + 1, index, startingIndex, endingIndex, max, word, state =>
      if max < index then some state
      else do
        let word ← swap word startingIndex index
        let state ← permute dict dictSize fuel word (startingIndex + 1) endingIndex state
        let word ← swap word startingIndex index
        swapLoop dict dictSize fuel (index + 1) startingIndex endingIndex max word state

/-- `permute`. -/
def permute (dict : List (List α)) (dictSize : Int) :
    Nat → List α → (startingIndex endingIndex : Int) → List (List α) × Nat →
      Option (List (List α) × Nat)
  | 0, _, _, _, _ => none
  | fuel + 1, word, startingIndex, endingIndex, (results, found) =>
      if startingIndex = endingIndex then do
        let (_, results, found) ← checkAgainstResults word results found 0 dict dictSize
        some (results, found)
      else swapLoop dict dictSize fuel 0 startingIndex endingIndex endingIndex word (results, found)
end

/-- `recBlends`: the returned number and the slots of `results`. -/
def recBlends (fuel : Nat) (word : List α) (dict : List (List α)) (size : Int)
    (results : List (List α)) : Option (Nat × List (List α)) := do
  let (results, found) ← permute dict size fuel word 0 ((word.length : Int) - 1) (results, 0)
  some (found, results)

end Coursework.Anagrams
