import Coursework.Driving.Courses

/-!
# The characters that `isCourseWellFormed` reads

`checkCourse` is `isCourseWellFormed` with its accesses, in their order: an access outside the
string is `none`. `checkCourse_iff` says that there is none, and what is accepted.
Vocabulary and scope: `Coursework.Driving.Courses`.
-/

namespace Coursework.Driving

/-- `course.size() - 1`, of unsigned numbers. -/
def sizeMinusOne (course : List Char) : Nat :=
  if course = [] then 18446744073709551615 else course.length - 1

/-- The letters that are directions. -/
def isDirection (a : Char) : Bool :=
  a.toUpper = 'N' || a.toUpper = 'S' || a.toUpper = 'E' || a.toUpper = 'W'

/-- The checks of one character; false is returned at once. -/
def checkAt (course : List Char) (k : Nat) : Option Bool := do
  let a ← course[k]?
  if !a.isAlpha && !a.isDigit then some false
  else if a.isAlpha && !isDirection a then some false
  else if a.isDigit then
    if k + 1 > sizeMinusOne course then some true
    else do
      let b ← course[k + 1]?
      if b.isDigit then
        if k + 2 > sizeMinusOne course then some true
        else do
          let c ← course[k + 2]?
          some (!c.isDigit)
      else some true
  else some true

/-- The loop over the characters. -/
def checkFrom (course : List Char) : Nat → Nat → Option Bool
  | 0, _ => some true
  | rounds + 1, k => do
      let passes ← checkAt course k
      if passes then checkFrom course rounds (k + 1) else some false

/-- `isCourseWellFormed`. -/
def checkCourse (course : List Char) : Option Bool :=
  if course = [] then some true
  else do
    let first ← course[0]?
    if !first.isAlpha then some false
    else if course.length = 1 then do
      let first ← course[0]?
      if !first.isAlpha then some false else checkFrom course course.length 0
    else checkFrom course course.length 0

/-- The look-ahead reads inside the string. -/
theorem checkAt_eq {course : List Char} {k : Nat} (hk : k < course.length) :
    checkAt course k = some (isWellFormedAt course k) := by
  have hsize : sizeMinusOne course = course.length - 1 := by
    rw [sizeMinusOne, if_neg (List.ne_nil_of_length_pos (Nat.zero_lt_of_lt hk))]
  have hdigit (j : Nat) (hj : ¬ j < course.length) : isDigitAt course j = false := by
    rw [isDigitAt, List.getElem?_eq_none (Nat.le_of_not_lt hj)]
    rfl
  have hget (j : Nat) (hj : j < course.length) :
      ∃ b, course[j]? = some b ∧ isDigitAt course j = b.isDigit := by
    refine ⟨course[j], List.getElem?_eq_getElem hj, ?_⟩
    rw [isDigitAt, List.getElem?_eq_getElem hj]
    rfl
  obtain ⟨a, ha, hdigitAt⟩ := hget k hk
  have halphaAt : isAlphaAt course k = a.isAlpha := by
    rw [isAlphaAt, ha]
    rfl
  have hdirectionAt : isDirectionAt course k = isDirection a := by
    rw [isDirectionAt, ha]
    rfl
  rw [checkAt, isWellFormedAt, hsize, halphaAt, hdirectionAt, hdigitAt, ha]
  simp only [Option.bind_eq_bind, Option.bind_some]
  by_cases hother : (!a.isAlpha && !a.isDigit) = true
  · rw [if_pos hother, if_pos hother]
  · rw [if_neg hother, if_neg hother]
    by_cases hdirection : (a.isAlpha && !isDirection a) = true
    · rw [if_pos hdirection, if_pos hdirection]
    · rw [if_neg hdirection, if_neg hdirection]
      cases a.isDigit with
      | false => rfl
      | true =>
          rw [if_pos rfl, Bool.true_and]
          -- each further character is read only if the string has it
          by_cases hnext : k + 1 < course.length
          · obtain ⟨b, hb, hdigitNext⟩ := hget (k + 1) hnext
            rw [if_neg (by omega), hb, hdigitNext]
            simp only [Option.bind_some]
            cases b.isDigit with
            | false => rfl
            | true =>
                rw [if_pos rfl, Bool.true_and]
                by_cases hlast : k + 2 < course.length
                · obtain ⟨c, hc, hdigitLast⟩ := hget (k + 2) hlast
                  rw [if_neg (by omega), hc, hdigitLast]
                  cases hdigit : c.isDigit <;> simp [hdigit]
                · rw [if_pos (by omega), hdigit (k + 2) hlast]
                  rfl
          · rw [if_pos (by omega), hdigit (k + 1) hnext]
            rfl

theorem checkFrom_eq (course : List Char) {rounds k : Nat} (hk : k + rounds = course.length) :
    checkFrom course rounds k =
      some ((List.range' k rounds).all (isWellFormedAt course)) := by
  induction rounds generalizing k with
  | zero => rfl
  | succ rounds ih =>
      rw [checkFrom, checkAt_eq (by omega), List.range'_succ, List.all_cons]
      simp only [Option.bind_eq_bind, Option.bind_some]
      cases isWellFormedAt course k with
      | false => rfl
      | true => exact ih (by omega)

/-- The checks come to the result of `isCourseWellFormed`. -/
theorem checkCourse_eq (course : List Char) :
    checkCourse course = some (isCourseWellFormed course) := by
  by_cases hnil : course = []
  · rw [checkCourse, isCourseWellFormed, if_pos hnil, if_pos hnil]
  · obtain ⟨a, l, rfl⟩ := List.exists_cons_of_ne_nil hnil
    rw [checkCourse, if_neg hnil, isCourseWellFormed_of_ne_nil hnil, List.range_eq_range']
    have hloop := checkFrom_eq (a :: l) (Nat.zero_add (a :: l).length)
    have halpha : isAlphaAt (a :: l) 0 = a.isAlpha := rfl
    rw [halpha, List.getElem?_cons_zero]
    simp only [Option.bind_eq_bind, Option.bind_some, hloop]
    cases a.isAlpha <;> simp

/-- No character outside the string is read, and the strings that are accepted are the sequences of
segments. -/
theorem checkCourse_iff (course : List Char) :
    ∃ b, checkCourse course = some b ∧ (b = true ↔ ∃ segs, course = text segs) :=
  ⟨_, checkCourse_eq course, isCourseWellFormed_iff⟩

end Coursework.Driving
