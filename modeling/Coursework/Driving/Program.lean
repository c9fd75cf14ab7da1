import Mathlib.Data.List.Basic
import Mathlib.Data.Nat.Notation

/-!
# Driving a course

`driveCourse` of `maze.cpp` and the functions it calls. The grid is what `getRows`, `getCols` and
`isWall` say. A course is a list of characters; a subscript behind its end is never a letter or
digit, as the source checks the size first. Numbers are unbounded, so all the steps of a course are
taken to fit an `int`. The messages on `cerr` are left out.
-/

namespace Coursework.Driving

/-- The grid. -/
structure Grid where
  getRows : Int
  getCols : Int
  isWall : Int → Int → Bool

/-- `isValidPosition`. -/
def Grid.isValidPosition (g : Grid) (r c : Int) : Bool :=
  if r < 1 ∨ r > g.getRows ∨ c < 1 ∨ c > g.getCols then false else !g.isWall r c

/-- `validDirections`. -/
def validDirections : List Char := "NnSsEeWw".toList

/-- The four loops of `driveSegment`: `next` is the step of the loop variable, `valid` says whether
the cell with this row or column is empty, and the first number counts the rounds until the loop
variable comes to the edge. -/
def driveLoop (valid : Int → Bool) (next : Int → Int) (maxSteps : Int) : Nat → Int → Int → Int
  | 0, _, maxDistance => maxDistance
  | rounds + 1, i, maxDistance =>
      if valid (next i) then
        if maxDistance + 1 = maxSteps then maxSteps
        else driveLoop valid next maxSteps rounds (next i) (maxDistance + 1)
      else maxDistance

/-- `driveSegment`. -/
def driveSegment (g : Grid) (r c : Int) (dir : Char) (maxSteps : Int) : Int :=
  if ¬ g.isValidPosition r c then -1
  else if maxSteps < 0 then -1
  else if dir ∉ validDirections then -1
  else if dir.toUpper = 'N' then
    driveLoop (fun i => g.isValidPosition i c) (· - 1) maxSteps r.toNat r 0
  else if dir.toUpper = 'S' then
    driveLoop (fun i => g.isValidPosition i c) (· + 1) maxSteps (g.getRows - r).toNat r 0
  else if dir.toUpper = 'E' then
    driveLoop (fun i => g.isValidPosition r i) (· + 1) maxSteps (g.getCols - c).toNat c 0
  else if dir.toUpper = 'W' then
    driveLoop (fun i => g.isValidPosition r i) (· - 1) maxSteps c.toNat c 0
  else 0

/-- `isalpha(course[k])`. -/
def isAlphaAt (course : List Char) (k : Nat) : Bool :=
  course[k]?.any Char.isAlpha

/-- `isdigit(course[k])`. -/
def isDigitAt (course : List Char) (k : Nat) : Bool :=
  course[k]?.any Char.isDigit

/-- `toupper(course[k])` is a direction. -/
def isDirectionAt (course : List Char) (k : Nat) : Bool :=
  course[k]?.any fun a => a.toUpper = 'N' || a.toUpper = 'S' || a.toUpper = 'E' || a.toUpper = 'W'

/-- The checks of one character. -/
def isWellFormedAt (course : List Char) (k : Nat) : Bool :=
  if !isAlphaAt course k && !isDigitAt course k then false
  else if isAlphaAt course k && !isDirectionAt course k then false
  else if isDigitAt course k && isDigitAt course (k + 1) && isDigitAt course (k + 2) then false
  else true

/-- `isCourseWellFormed`. -/
def isCourseWellFormed (course : List Char) : Bool :=
  if course = [] then true
  else if !isAlphaAt course 0 then false
  else if course.length = 1 ∧ !isAlphaAt course 0 then false
  else (List.range course.length).all (isWellFormedAt course)

/-- `stringtoInteger(course[k])`. -/
def integerAt (course : List Char) (k : Nat) : Int :=
  course[k]?.elim 0 fun a => a.toNat - 48

/-- The variables of `driveCourse`; the sum `nsteps` is taken to fit an `int`. -/
structure Car where
  currentRow : Int
  currentCol : Int
  nsteps : Int

/-- `updatePosition`. -/
def Car.updatePosition (car : Car) (dir : Char) (distance : Int) : Car :=
  let car := if dir.toUpper = 'E' then { car with currentCol := car.currentCol + distance } else car
  let car := if dir.toUpper = 'W' then { car with currentCol := car.currentCol - distance } else car
  let car := if dir.toUpper = 'S' then { car with currentRow := car.currentRow + distance } else car
  if dir.toUpper = 'N' then { car with currentRow := car.currentRow - distance } else car

/-- Drive one segment; an error is the value of `nsteps` when the course returns 3. -/
def Car.drive (g : Grid) (dir : Char) (maxSteps : Int) (car : Car) : Except Int Car :=
  let distance := driveSegment g car.currentRow car.currentCol dir maxSteps
  let nsteps := car.nsteps + distance
  if distance < maxSteps then .error nsteps
  else .ok ({ car with nsteps := nsteps }.updatePosition dir distance)

/-- The body of the loop over the characters of the course. -/
def driveAt (g : Grid) (course : List Char) (car : Car) (k : Nat) : Except Int Car := do
  let dir := course[k]?.getD '\x00'
  let car ← if isAlphaAt course k ∧ k + 1 = course.length then car.drive g dir 1 else pure car
  let car ← if isAlphaAt course k ∧ k + 1 < course.length then do
      let car ← if isAlphaAt course (k + 1) then car.drive g dir 1 else pure car
      if isDigitAt course (k + 1) ∧ k + 2 = course.length then
        car.drive g dir (integerAt course (k + 1))
      else pure car
    else pure car
  if isAlphaAt course k ∧ k + 1 < course.length ∧ isDigitAt course (k + 1) ∧
      k + 2 < course.length then do
    let car ← if isAlphaAt course (k + 2) then car.drive g dir (integerAt course (k + 1))
      else pure car
    if isDigitAt course (k + 2) then
      car.drive g dir (10 * integerAt course (k + 1) + integerAt course (k + 2))
    else pure car
  else pure car

/-- `driveCourse`: the result and the value of `nsteps` afterwards. -/
def driveCourse (g : Grid) (sr sc er ec : Int) (course : List Char) (nsteps : Int) : Int × Int :=
  if ¬ g.isValidPosition sr sc ∨ ¬ g.isValidPosition er ec then (2, nsteps)
  else if ¬ isCourseWellFormed course then (2, nsteps)
  else if course = [] then (if sr = er ∧ sc = ec then 0 else 1, nsteps)
  else
    match (List.range course.length).foldlM (driveAt g course) ⟨sr, sc, 0⟩ with
    | .error nsteps => (3, nsteps)
    | .ok car => (if car.currentRow = er ∧ car.currentCol = ec then 0 else 1, car.nsteps)

end Coursework.Driving
