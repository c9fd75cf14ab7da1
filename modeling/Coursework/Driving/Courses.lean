import Coursework.Driving.Program
import Mathlib.Data.List.TakeWhile

/-!
# Courses as sequences of segments

A segment is a direction letter with at most two digits. `isCourseWellFormed_iff` says that the
checks of `isCourseWellFormed` accept exactly the texts of sequences of segments.
Vocabulary and scope: `Coursework.Driving.Program`.
-/

namespace Coursework.Driving

/-- A course segment. -/
structure Segment where
  dir : Char
  digits : List Char
  dir_mem : dir ∈ validDirections
  isDigit_of_mem : ∀ a ∈ digits, a.isDigit = true
  length_le : digits.length ≤ 2

namespace Segment

/-- The characters of a segment. -/
def text (s : Segment) : List Char :=
  s.dir :: s.digits

/-- The number of steps asked for; without a number it is one. -/
def count (s : Segment) : Nat :=
  if s.digits = [] then 1 else s.digits.foldl (fun n a => 10 * n + (a.toNat - 48)) 0

end Segment

/-- The characters of a sequence of segments. -/
def text (segs : List Segment) : List Char :=
  segs.flatMap Segment.text

@[simp] theorem text_nil : text [] = [] := rfl

@[simp] theorem text_cons (s : Segment) (segs : List Segment) :
    text (s :: segs) = s.dir :: (s.digits ++ text segs) := rfl

theorem text_append (front back : List Segment) : text (front ++ back) = text front ++ text back :=
  List.flatMap_append

theorem text_eq_nil_iff {segs : List Segment} : text segs = [] ↔ segs = [] := by
  cases segs with
  | nil => simp
  | cons s segs => simp

/-- `toupper` on the codes. -/
theorem toNat_toUpper (a : Char) :
    a.toUpper.toNat = if 97 ≤ a.toNat ∧ a.toNat ≤ 122 then a.toNat - 32 else a.toNat := by
  unfold Char.toUpper Char.toNat
  by_cases h : 97 ≤ a.val.toNat ∧ a.val.toNat ≤ 122
  · rw [if_pos h, dif_pos (show 'a'.val ≤ a.val ∧ a.val ≤ 'z'.val from h)]
    have hlt := a.val.toNat_lt
    have hA : 'A'.val.toNat = 65 := rfl
    have ha : 'a'.val.toNat = 97 := rfl
    simp only [UInt32.toNat_add, UInt32.toNat_sub]
    omega
  · rw [if_neg h, dif_neg (show ¬ ('a'.val ≤ a.val ∧ a.val ≤ 'z'.val) from h)]

/-- `toupper` gives a direction at the eight valid letters only. -/
theorem mem_validDirections_iff {a : Char} :
    a ∈ validDirections ↔
      a.toUpper = 'N' ∨ a.toUpper = 'S' ∨ a.toUpper = 'E' ∨ a.toUpper = 'W' := by
  show a ∈ ['N', 'n', 'S', 's', 'E', 'e', 'W', 'w'] ↔ _
  simp only [← Char.toNat_inj, toNat_toUpper, List.mem_cons, List.not_mem_nil, or_false]
  simp only [Char.reduceToNat]
  split <;> omega

theorem isAlpha_of_mem {a : Char} (h : a ∈ validDirections) : a.isAlpha = true := by
  have hlist : a ∈ ['N', 'n', 'S', 's', 'E', 'e', 'W', 'w'] := h
  simp only [List.mem_cons, List.not_mem_nil, or_false] at hlist
  rcases hlist with rfl | rfl | rfl | rfl | rfl | rfl | rfl | rfl <;> rfl

theorem isAlpha_of_isDigit {a : Char} (h : a.isDigit = true) : a.isAlpha = false := by
  have hle : a.toNat ≤ 57 := (Char.isDigit_iff_toNat.mp h).2
  have hA : ¬ 'A'.val ≤ a.val := fun hA => absurd (Nat.le_trans hA hle) (by decide)
  have ha : ¬ 'a'.val ≤ a.val := fun ha => absurd (Nat.le_trans ha hle) (by decide)
  have hupper : a.isUpper = false := decide_eq_false fun h => hA h.1
  have hlower : a.isLower = false := by
    show (decide ('a'.val ≤ a.val) && _) = false
    rw [decide_eq_false ha, Bool.false_and]
  show (a.isUpper || a.isLower) = false
  rw [hupper, hlower, Bool.or_false]

theorem isDigit_of_isAlpha {a : Char} (h : a.isAlpha = true) : a.isDigit = false := by
  by_contra hdigit
  rw [Bool.not_eq_false] at hdigit
  rw [isAlpha_of_isDigit hdigit] at h
  exact Bool.false_ne_true h

section Subscripts

variable (front l : List Char) (k : Nat)

theorem getElem?_front : (front ++ l)[front.length + k]? = l[k]? := by
  rw [List.getElem?_append_right (Nat.le_add_right _ _), Nat.add_sub_cancel_left]

theorem isAlphaAt_front : isAlphaAt (front ++ l) (front.length + k) = isAlphaAt l k := by
  rw [isAlphaAt, getElem?_front, isAlphaAt]

theorem isDigitAt_front : isDigitAt (front ++ l) (front.length + k) = isDigitAt l k := by
  rw [isDigitAt, getElem?_front, isDigitAt]

theorem isDirectionAt_front :
    isDirectionAt (front ++ l) (front.length + k) = isDirectionAt l k := by
  rw [isDirectionAt, getElem?_front, isDirectionAt]

theorem isWellFormedAt_front :
    isWellFormedAt (front ++ l) (front.length + k) = isWellFormedAt l k := by
  simp only [isWellFormedAt, Nat.add_assoc, isAlphaAt_front, isDigitAt_front, isDirectionAt_front]

end Subscripts

theorem isAlphaAt_of_isDigitAt {l : List Char} {k : Nat} (h : isDigitAt l k = true) :
    isAlphaAt l k = false := by
  rw [isDigitAt] at h
  rw [isAlphaAt]
  cases hl : l[k]? with
  | none => rfl
  | some a =>
      rw [hl] at h
      exact isAlpha_of_isDigit h

theorem isDigitAt_of_isAlphaAt {l : List Char} {k : Nat} (h : isAlphaAt l k = true) :
    isDigitAt l k = false := by
  by_contra hdigit
  rw [Bool.not_eq_false] at hdigit
  rw [isAlphaAt_of_isDigitAt hdigit] at h
  exact Bool.false_ne_true h

theorem isAlphaAt_dir {d : Char} (hd : d ∈ validDirections) (l : List Char) :
    isAlphaAt (d :: l) 0 = true :=
  isAlpha_of_mem hd

/-- The check of a letter. -/
theorem isWellFormedAt_alpha {l : List Char} {k : Nat} (h : isAlphaAt l k = true) :
    isWellFormedAt l k = isDirectionAt l k := by
  simp [isWellFormedAt, h, isDigitAt_of_isAlphaAt h]

/-- The check of a digit. -/
theorem isWellFormedAt_digit {l : List Char} {k : Nat} (h : isDigitAt l k = true) :
    isWellFormedAt l k = !(isDigitAt l (k + 1) && isDigitAt l (k + 2)) := by
  simp [isWellFormedAt, h, isAlphaAt_of_isDigitAt h]

/-- A character that passes its check is a letter or a digit. -/
theorem isAlphaAt_of_isWellFormedAt {l : List Char} {k : Nat} (h : isWellFormedAt l k = true)
    (hdigit : isDigitAt l k = false) : isAlphaAt l k = true := by
  by_contra halpha
  rw [Bool.not_eq_true] at halpha
  simp [isWellFormedAt, halpha, hdigit] at h

/-- A direction at the start is one of the eight letters. -/
theorem isDirectionAt_cons (d : Char) (l : List Char) :
    isDirectionAt (d :: l) 0 = true ↔ d ∈ validDirections := by
  rw [mem_validDirections_iff]
  simp [isDirectionAt, or_assoc]

/-- A digit of a segment. -/
theorem isDigitAt_digits {d : Char} {digits rest : List Char} {k : Nat} (hk : k < digits.length)
    (hdigits : ∀ a ∈ digits, a.isDigit = true) :
    isDigitAt (d :: (digits ++ rest)) (k + 1) = true := by
  rw [isDigitAt, List.getElem?_cons_succ, List.getElem?_append_left hk,
    List.getElem?_eq_getElem hk, Option.any_some]
  exact hdigits _ (List.getElem_mem hk)

/-- A text does not start with a digit. -/
theorem isDigitAt_text (segs : List Segment) : isDigitAt (text segs) 0 = false := by
  cases segs with
  | nil => rfl
  | cons s segs => exact isDigitAt_of_isAlphaAt (isAlphaAt_dir s.dir_mem _)

/-- Behind the digits of a segment there is no digit. -/
theorem isDigitAt_behind (s : Segment) (segs : List Segment) :
    isDigitAt (text (s :: segs)) (s.digits.length + 1) = false := by
  have h := isDigitAt_front (s.dir :: s.digits) (text segs) 0
  rw [isDigitAt_text] at h
  exact h

/-- Every character of a text passes its checks. -/
theorem isWellFormedAt_text (segs : List Segment) {k : Nat} (hk : k < (text segs).length) :
    isWellFormedAt (text segs) k = true := by
  induction segs generalizing k with
  | nil => exact absurd hk (Nat.not_lt_zero k)
  | cons s segs ih =>
      have hlength : (text (s :: segs)).length = s.digits.length + 1 + (text segs).length := by
        simp [Nat.add_right_comm]
      rcases Nat.lt_or_ge k (s.digits.length + 1) with hlt | hge
      case inl =>
        cases k with
        | zero =>
            rw [text_cons, isWellFormedAt_alpha (isAlphaAt_dir s.dir_mem _), isDirectionAt_cons]
            exact s.dir_mem
        | succ k =>
            -- one of the next two characters is behind the digits, as there are at most two
            have hbehind := isDigitAt_behind s segs
            have hle := s.length_le
            have hnext : s.digits.length + 1 = k + 1 + 1 ∨ s.digits.length + 1 = k + 1 + 2 := by
              omega
            rw [text_cons, isWellFormedAt_digit (isDigitAt_digits (Nat.lt_of_succ_lt_succ hlt)
              s.isDigit_of_mem), ← text_cons]
            rcases hnext with hnext | hnext
            · rw [← hnext, hbehind, Bool.false_and, Bool.not_false]
            · rw [← hnext, hbehind, Bool.and_false, Bool.not_false]
      case inr =>
        obtain ⟨j, rfl⟩ := Nat.exists_eq_add_of_le hge
        have hfront := isWellFormedAt_front (s.dir :: s.digits) (text segs) j
        rw [List.length_cons] at hfront
        exact hfront.trans (ih (by omega))

/-- Three digits in a row do not pass. -/
theorem length_le_of_isWellFormedAt {d : Char} {digits rest : List Char}
    (hdigits : ∀ a ∈ digits, a.isDigit = true)
    (hcheck : 0 < digits.length → isWellFormedAt (d :: (digits ++ rest)) 1 = true) :
    digits.length ≤ 2 := by
  by_contra hlt
  have hdigit (k : Nat) (hk : k < 3) : isDigitAt (d :: (digits ++ rest)) (k + 1) = true :=
    isDigitAt_digits (by omega) hdigits
  have h := hcheck (by omega)
  rw [isWellFormedAt_digit (hdigit 0 (by omega)), hdigit 1 (by omega), hdigit 2 (by omega)] at h
  exact Bool.false_ne_true h

/-- The first segment of a course that passes the checks. -/
theorem exists_segment {d : Char} {l : List Char} (halpha : isAlphaAt (d :: l) 0 = true)
    (hchecks : ∀ k < (d :: l).length, isWellFormedAt (d :: l) k = true) :
    ∃ s : Segment, ∃ rest, d :: l = s.text ++ rest ∧ (rest = [] ∨ isAlphaAt rest 0 = true) := by
  generalize hdigitsEq : l.takeWhile Char.isDigit = digits
  generalize hrestEq : l.dropWhile Char.isDigit = rest
  have hsplit : l = digits ++ rest := by
    rw [← hdigitsEq, ← hrestEq, List.takeWhile_append_dropWhile]
  have hdigits : ∀ a ∈ digits, a.isDigit = true := by
    intro a ha
    rw [← hdigitsEq] at ha
    exact List.mem_takeWhile_imp ha
  have hdir : d ∈ validDirections := by
    rw [← isDirectionAt_cons d l, ← isWellFormedAt_alpha halpha]
    exact hchecks 0 (Nat.zero_lt_succ _)
  subst hsplit
  have hlength : digits.length ≤ 2 := by
    refine length_le_of_isWellFormedAt hdigits fun hpos => hchecks 1 ?_
    simp only [List.length_cons, List.length_append]
    omega
  refine ⟨⟨d, digits, hdir, hdigits, hlength⟩, rest, rfl, ?_⟩
  cases rest with
  | nil => exact .inl rfl
  | cons a rest =>
      -- `a` is no digit and passes its check
      right
      have hfront := isWellFormedAt_front (d :: digits) (a :: rest) 0
      have hcheck : isWellFormedAt (a :: rest) 0 = true := by
        rw [← hfront]
        exact hchecks _ (by simp)
      refine isAlphaAt_of_isWellFormedAt hcheck ?_
      have hhead := List.head?_dropWhile_not Char.isDigit (digits ++ a :: rest)
      rw [hrestEq] at hhead
      simpa [isDigitAt] using hhead

/-- The checks accept only texts. -/
theorem exists_text {course : List Char} (hstart : course = [] ∨ isAlphaAt course 0 = true)
    (hchecks : ∀ k < course.length, isWellFormedAt course k = true) :
    ∃ segs, course = text segs := by
  induction hn : course.length using Nat.strongRecOn generalizing course with
  | ind n ih =>
      cases course with
      | nil => exact ⟨[], rfl⟩
      | cons d l =>
          obtain ⟨s, rest, hsplit, hrest⟩ :=
            exists_segment (hstart.resolve_left (List.cons_ne_nil d l)) hchecks
          have hlength : n = s.text.length + rest.length := by
            rw [← hn, hsplit, List.length_append]
          have hpos : 0 < s.text.length := Nat.zero_lt_succ _
          obtain ⟨segs, rfl⟩ := ih rest.length (by omega) hrest (fun k hk => by
            have hcheck := hchecks (s.text.length + k) (by omega)
            rwa [hsplit, isWellFormedAt_front] at hcheck) rfl
          exact ⟨s :: segs, hsplit⟩

/-- The check of the length is never the one that fails. -/
theorem isCourseWellFormed_of_ne_nil {course : List Char} (h : course ≠ []) :
    isCourseWellFormed course =
      (isAlphaAt course 0 && (List.range course.length).all (isWellFormedAt course)) := by
  rw [isCourseWellFormed, if_neg h]
  cases isAlphaAt course 0 <;> simp

/-- `isCourseWellFormed` accepts exactly the sequences of segments. -/
theorem isCourseWellFormed_iff {course : List Char} :
    isCourseWellFormed course = true ↔ ∃ segs, course = text segs := by
  by_cases hnil : course = []
  case pos =>
    subst hnil
    exact iff_of_true rfl ⟨[], rfl⟩
  case neg =>
    rw [isCourseWellFormed_of_ne_nil hnil, Bool.and_eq_true, List.all_eq_true]
    constructor
    case mp =>
      intro ⟨halpha, hchecks⟩
      exact exists_text (.inr halpha) fun k hk => hchecks k (List.mem_range.mpr hk)
    case mpr =>
      rintro ⟨segs, rfl⟩
      refine ⟨?_, fun k hk => isWellFormedAt_text segs (List.mem_range.mp hk)⟩
      cases segs with
      | nil => exact absurd rfl hnil
      | cons s segs => exact isAlphaAt_dir s.dir_mem _

end Coursework.Driving
