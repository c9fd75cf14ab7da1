import Coursework.Driving.Segments
import Mathlib.Data.List.Infix

/-!
# What a course does

`DrivesRight` says that `driveCourse` executes the segments of the course one after another.
`course_right` proves it for every course that is `Harmless`: the empty course needs `nsteps` to
be zero already, as the function returns before it sets it, and no segment with the number zero
may be reached in front of a free cell, as the car then drives up to the obstacle.
Vocabulary and scope: `Coursework.Driving.Segments`.
-/

namespace Coursework.Driving

open Walks

variable {g : Grid}

/-- The single moves of a sequence of segments. -/
def moves (segs : List Segment) : List Char :=
  segs.flatMap fun s => List.replicate s.count s.dir

/-- What a course should give: the moves made before the obstacle, or all of them. -/
def execute (g : Grid) (segs : List Segment) (start : Int × Int) : Outcome (Int × Int) :=
  follow g.isEmptyCell neighbour (moves segs) start 0

/-- The result and the value of `nsteps` that belong to an outcome. -/
def report (goal : Int × Int) : Outcome (Int × Int) → Int × Int
  | .blocked n => (3, n)
  | .finished p n => (if p = goal then 0 else 1, n)

/-- The course does what its segments say. -/
structure DrivesRight (g : Grid) (sr sc er ec : Int) (course : List Char) (nsteps : Int) :
    Prop where
  rejected : (driveCourse g sr sc er ec course nsteps).1 = 2 ↔
    g.isValidPosition sr sc = false ∨ g.isValidPosition er ec = false ∨
      ¬ ∃ segs, course = text segs
  unchanged : (driveCourse g sr sc er ec course nsteps).1 = 2 →
    (driveCourse g sr sc er ec course nsteps).2 = nsteps
  executed : g.isValidPosition sr sc = true → g.isValidPosition er ec = true →
    ∀ segs, course = text segs →
      driveCourse g sr sc er ec course nsteps = report (er, ec) (execute g segs (sr, sc))

/-- No segment with the number zero is reached in front of a free cell. -/
def NoZeroRun (g : Grid) (segs : List Segment) (start : Int × Int) : Prop :=
  ∀ front s back q n, segs = front ++ s :: back → s.count = 0 →
    execute g front start = .finished q n → g.isEmptyCell (neighbour s.dir q) = false

/-- The empty course leaves `nsteps` at zero, and zero steps meet obstacles only. -/
def Harmless (g : Grid) (sr sc er ec : Int) (course : List Char) (nsteps : Int) : Prop :=
  g.isValidPosition sr sc = true → g.isValidPosition er ec = true →
    ∀ segs, course = text segs → (segs = [] → nsteps = 0) ∧ NoZeroRun g segs (sr, sc)

section Characters

/-- At a digit the loop does nothing. -/
theorem driveAt_digit {course : List Char} {k : Nat} (car : Car)
    (h : isDigitAt course k = true) : driveAt g course car k = .ok car := by
  have halpha := isAlphaAt_of_isDigitAt h
  simp only [driveAt, halpha, Bool.false_eq_true, false_and, if_false]
  rfl

/-- Characters that change nothing. -/
theorem foldlM_ok {f : Car → Nat → Except Int Car} {car : Car} {ks : List Nat}
    (h : ∀ k ∈ ks, f car k = .ok car) : ks.foldlM f car = .ok car := by
  induction ks with
  | nil => rfl
  | cons k ks ih =>
      rw [List.foldlM_cons, h k List.mem_cons_self]
      exact ih fun k hk => h k (List.mem_cons_of_mem _ hk)

/-- The loop looks only at the characters from its own on. -/
theorem driveAt_front (front l : List Char) (car : Car) :
    driveAt g (front ++ l) car front.length = driveAt g l car 0 := by
  have halpha := isAlphaAt_front front l
  have hdigit := isDigitAt_front front l
  have hget := getElem?_front front l
  have hinteger (k : Nat) : integerAt (front ++ l) (front.length + k) = integerAt l k := by
    rw [integerAt, hget, integerAt]
  have halpha0 : isAlphaAt (front ++ l) front.length = isAlphaAt l 0 := halpha 0
  have hget0 : (front ++ l)[front.length]? = l[0]? := hget 0
  simp only [driveAt, halpha, hdigit, hinteger, halpha0, hget0, List.length_append,
    Nat.add_left_cancel_iff, Nat.add_lt_add_iff_left, Nat.zero_add]

/-- The value of a digit. -/
theorem toNat_digit {a : Char} (h : a.isDigit = true) :
    ((a.toNat - 48 : Nat) : Int) = a.toNat - 48 := by
  have hle := (Char.isDigit_iff_toNat.mp h).1
  have hzero : '0'.toNat = 48 := rfl
  omega

@[simp] theorem isAlphaAt_nil (k : Nat) : isAlphaAt [] k = false := rfl

@[simp] theorem isAlphaAt_cons_zero (a : Char) (l : List Char) :
    isAlphaAt (a :: l) 0 = a.isAlpha := rfl

@[simp] theorem isAlphaAt_cons_succ (a : Char) (l : List Char) (k : Nat) :
    isAlphaAt (a :: l) (k + 1) = isAlphaAt l k := rfl

@[simp] theorem isDigitAt_nil (k : Nat) : isDigitAt [] k = false := rfl

@[simp] theorem isDigitAt_cons_zero (a : Char) (l : List Char) :
    isDigitAt (a :: l) 0 = a.isDigit := rfl

@[simp] theorem isDigitAt_cons_succ (a : Char) (l : List Char) (k : Nat) :
    isDigitAt (a :: l) (k + 1) = isDigitAt l k := rfl

@[simp] theorem integerAt_cons_zero (a : Char) (l : List Char) :
    integerAt (a :: l) 0 = a.toNat - 48 := rfl

@[simp] theorem integerAt_cons_succ (a : Char) (l : List Char) (k : Nat) :
    integerAt (a :: l) (k + 1) = integerAt l k := rfl

/-- At the letter of a segment the loop drives the whole segment. -/
theorem driveAt_dir (front : List Char) (s : Segment) (segs : List Segment) (car : Car) :
    driveAt g (front ++ text (s :: segs)) car front.length = car.drive g s.dir s.count := by
  obtain ⟨d, digits, hd, hdigits, hlength⟩ := s
  have halpha := isAlpha_of_mem hd
  rw [driveAt_front, text_cons]
  -- the shape of the segment and whether another one follows select one of the five branches
  match digits, hdigits, hlength with
  | [], _, _ =>
      cases segs with
      | nil => simp [driveAt, halpha, Segment.count]
      | cons s segs =>
          have hnext := isAlpha_of_mem s.dir_mem
          simp [driveAt, halpha, Segment.count, hnext, isDigit_of_isAlpha hnext]
  | [a], hdigits, _ =>
      have ha := hdigits a List.mem_cons_self
      cases segs with
      | nil => simp [driveAt, halpha, Segment.count, ha, isAlpha_of_isDigit ha, toNat_digit ha]
      | cons s segs =>
          have hnext := isAlpha_of_mem s.dir_mem
          simp [driveAt, halpha, Segment.count, ha, isAlpha_of_isDigit ha, toNat_digit ha, hnext,
            isDigit_of_isAlpha hnext]
  | [a, b], hdigits, _ =>
      have ha := hdigits a List.mem_cons_self
      have hb := hdigits b (by simp)
      simp [driveAt, halpha, Segment.count, ha, isAlpha_of_isDigit ha, toNat_digit ha, hb,
        isAlpha_of_isDigit hb, toNat_digit hb]

/-- The loop over the characters is a loop over the segments. -/
theorem foldlM_driveAt (front : List Char) (segs : List Segment) (car : Car) :
    (List.range' front.length (text segs).length).foldlM (driveAt g (front ++ text segs)) car =
      segs.foldlM (fun car s => car.drive g s.dir s.count) car := by
  induction segs generalizing front car with
  | nil => rfl
  | cons s segs ih =>
      have hlength : (text (s :: segs)).length = s.digits.length + (text segs).length + 1 := by
        simp
      have hfront : front ++ text (s :: segs) = front ++ s.text ++ text segs := by
        rw [List.append_assoc]
        rfl
      rw [hlength, List.range'_succ, ← List.range'_append_1, List.foldlM_cons, driveAt_dir,
        List.foldlM_cons]
      refine bind_congr fun car => ?_
      have hdigits : (List.range' (front.length + 1) s.digits.length).foldlM
          (driveAt g (front ++ text (s :: segs))) car = .ok car := by
        refine foldlM_ok fun k hk => driveAt_digit car ?_
        obtain ⟨j, hj, rfl⟩ := List.mem_range'.mp hk
        rw [Nat.one_mul, Nat.add_assoc, isDigitAt_front, Nat.add_comm 1]
        exact isDigitAt_digits hj s.isDigit_of_mem
      have hlast : front.length + 1 + s.digits.length = (front ++ s.text).length := by
        simp only [Segment.text, List.length_append, List.length_cons]
        omega
      rw [List.foldlM_append, hdigits, hlast, hfront]
      exact ih (front ++ s.text) car

end Characters

theorem execute_append_singleton (segs : List Segment) (s : Segment) (start : Int × Int) :
    execute g (segs ++ [s]) start =
      (execute g segs start).andThen
        (follow g.isEmptyCell neighbour (List.replicate s.count s.dir)) := by
  have hmoves : moves (segs ++ [s]) = moves segs ++ List.replicate s.count s.dir := by
    simp [moves]
  rw [execute, hmoves, follow_append]
  rfl

theorem NoZeroRun.front {segs : List Segment} {s : Segment} {start : Int × Int}
    (h : NoZeroRun g (segs ++ [s]) start) : NoZeroRun g segs start := by
  rintro front t back q n rfl
  exact h front t (back ++ [s]) q n (by simp)

/-- Without a zero run the loop over the segments makes the moves. -/
theorem foldlM_drive {segs : List Segment} {start : Int × Int}
    (hstart : g.isEmptyCell start = true) (h : NoZeroRun g segs start) :
    segs.foldlM (fun car s => car.drive g s.dir s.count) (carAt start 0) =
      toExcept (execute g segs start) := by
  induction segs using List.reverseRecOn with
  | nil => rfl
  | append_singleton segs s ih =>
      rw [List.foldlM_append, ih h.front, execute_append_singleton]
      cases houtcome : execute g segs start with
      | blocked n => rfl
      | finished p n =>
          have hp := valid_of_follow hstart houtcome
          show (pure (carAt p n) >>= fun car => [s].foldlM _ car) = _
          rw [pure_bind, List.foldlM_cons]
          simp only [List.foldlM_nil, bind_pure]
          exact drive_eq n hp s.dir_mem fun hzero => h segs s [] p n rfl hzero houtcome

/-- `driveCourse` on a sequence of segments. -/
theorem driveCourse_text {sr sc er ec nsteps : Int} {segs : List Segment}
    (hstart : g.isValidPosition sr sc = true) (hend : g.isValidPosition er ec = true)
    (hsegs : segs ≠ []) :
    driveCourse g sr sc er ec (text segs) nsteps =
      match segs.foldlM (fun car s => car.drive g s.dir s.count) (carAt (sr, sc) 0) with
      | .error n => (3, n)
      | .ok car => (if car.currentRow = er ∧ car.currentCol = ec then 0 else 1, car.nsteps) := by
  have hformed : isCourseWellFormed (text segs) = true := isCourseWellFormed_iff.mpr ⟨segs, rfl⟩
  have hloop := foldlM_driveAt (g := g) [] segs (carAt (sr, sc) 0)
  rw [driveCourse, if_neg (by simp [hstart, hend]), if_neg (by simp [hformed]),
    if_neg (by simp [text_eq_nil_iff, hsegs]), ← hloop, List.range_eq_range']
  rfl

theorem driveCourse_nil {sr sc er ec : Int} (nsteps : Int) (hstart : g.isValidPosition sr sc = true)
    (hend : g.isValidPosition er ec = true) :
    driveCourse g sr sc er ec [] nsteps = (if sr = er ∧ sc = ec then 0 else 1, nsteps) := by
  rw [driveCourse, if_neg (by simp [hstart, hend]), if_neg (by simp [isCourseWellFormed]),
    if_pos rfl]

/-- A course that is turned down. -/
theorem driveCourse_rejected {sr sc er ec nsteps : Int} {course : List Char}
    (h : g.isValidPosition sr sc = false ∨ g.isValidPosition er ec = false ∨
      ¬ ∃ segs, course = text segs) :
    driveCourse g sr sc er ec course nsteps = (2, nsteps) := by
  rw [driveCourse]
  split
  case isTrue => rfl
  case isFalse hvalid =>
    have hformed : ¬ isCourseWellFormed course = true := by
      rw [isCourseWellFormed_iff]
      refine (h.resolve_left ?_).resolve_left ?_ <;> simp_all
    rw [if_pos hformed]

/-- A sequence of segments without a zero run is executed. -/
theorem driveCourse_executed {sr sc er ec nsteps : Int} {segs : List Segment}
    (hstart : g.isValidPosition sr sc = true) (hend : g.isValidPosition er ec = true)
    (hnil : segs = [] → nsteps = 0) (hrun : NoZeroRun g segs (sr, sc)) :
    driveCourse g sr sc er ec (text segs) nsteps =
      report (er, ec) (execute g segs (sr, sc)) := by
  by_cases hsegs : segs = []
  case pos =>
    rw [hnil hsegs, hsegs]
    refine (driveCourse_nil 0 hstart hend).trans ?_
    simp [execute, moves, follow, report]
  case neg =>
    have hempty : g.isEmptyCell (sr, sc) = true := hstart
    rw [driveCourse_text hstart hend hsegs, foldlM_drive hempty hrun]
    cases execute g segs (sr, sc) with
    | blocked n => rfl
    | finished p n => simp [toExcept, report, carAt, Prod.ext_iff]

/-- The result 2 is for the courses that are turned down. -/
theorem report_ne_two (goal : Int × Int) (outcome : Outcome (Int × Int)) :
    (report goal outcome).1 ≠ 2 := by
  cases outcome with
  | blocked n => exact (by decide : (3 : Int) ≠ 2)
  | finished p n =>
      rw [report]
      split_ifs
      · exact (by decide : (0 : Int) ≠ 2)
      · exact (by decide : (1 : Int) ≠ 2)

theorem drivesRight_of_harmless {sr sc er ec nsteps : Int} {course : List Char}
    (h : Harmless g sr sc er ec course nsteps) : DrivesRight g sr sc er ec course nsteps := by
  by_cases hbad : g.isValidPosition sr sc = false ∨ g.isValidPosition er ec = false ∨
      ¬ ∃ segs, course = text segs
  case pos =>
    have hresult : driveCourse g sr sc er ec course nsteps = (2, nsteps) :=
      driveCourse_rejected hbad
    refine ⟨iff_of_true (congrArg Prod.fst hresult) hbad, fun _ => congrArg Prod.snd hresult, ?_⟩
    intro hstart hend segs hcourse
    rw [hstart, hend] at hbad
    exact absurd ⟨segs, hcourse⟩ ((hbad.resolve_left (by decide)).resolve_left (by decide))
  case neg =>
    have hexecuted (hstart : g.isValidPosition sr sc = true)
        (hend : g.isValidPosition er ec = true) (segs : List Segment)
        (hcourse : course = text segs) :
        driveCourse g sr sc er ec course nsteps =
          report (er, ec) (execute g segs (sr, sc)) := by
      obtain ⟨hnil, hrun⟩ := h hstart hend segs hcourse
      rw [hcourse]
      exact driveCourse_executed hstart hend hnil hrun
    have hne : (driveCourse g sr sc er ec course nsteps).1 ≠ 2 := by
      rw [not_or, not_or, Bool.not_eq_false, Bool.not_eq_false, not_not] at hbad
      obtain ⟨hstart, hend, segs, hcourse⟩ := hbad
      rw [hexecuted hstart hend segs hcourse]
      exact report_ne_two _ _
    exact ⟨iff_of_false hne hbad, fun htwo => absurd htwo hne, hexecuted⟩

/-- A zero run shows in the number of steps of the course that ends with it. -/
theorem nsteps_of_zeroRun {sr sc er ec : Int} (nsteps : Int) {segs : List Segment} {s : Segment}
    {q : Int × Int} {n : Nat} (hstart : g.isValidPosition sr sc = true)
    (hend : g.isValidPosition er ec = true) (hrun : NoZeroRun g segs (sr, sc))
    (hexecute : execute g segs (sr, sc) = .finished q n) (hcount : s.count = 0)
    (hnext : g.isEmptyCell (neighbour s.dir q) = true) :
    n < (driveCourse g sr sc er ec (text (segs ++ [s])) nsteps).2 := by
  have hempty : g.isEmptyCell (sr, sc) = true := hstart
  obtain ⟨car, hdrive, hlt⟩ := drive_zero n (valid_of_follow hempty hexecute) s.dir_mem hnext
  have hloop : (segs ++ [s]).foldlM (fun car s => car.drive g s.dir s.count) (carAt (sr, sc) 0) =
      .ok car := by
    rw [List.foldlM_append, foldlM_drive hempty hrun, hexecute]
    show (pure (carAt q n) >>= fun car => [s].foldlM _ car) = _
    rw [pure_bind, List.foldlM_cons]
    simp only [List.foldlM_nil, bind_pure, hcount]
    exact hdrive
  rw [driveCourse_text hstart hend (by simp), hloop]
  exact hlt

/-- If every beginning of the course drives right, there is no zero run. -/
theorem noZeroRun_of_drivesRight {sr sc er ec : Int} (nsteps : Int) {segs : List Segment}
    (hstart : g.isValidPosition sr sc = true) (hend : g.isValidPosition er ec = true)
    (h : ∀ front, front <+: segs → front ≠ [] →
      DrivesRight g sr sc er ec (text front) nsteps) :
    NoZeroRun g segs (sr, sc) := by
  induction segs using List.reverseRecOn with
  | nil =>
      intro front s back q n hsplit
      exact absurd hsplit.symm (by simp)
  | append_singleton segs s ih =>
      have hsegs : NoZeroRun g segs (sr, sc) :=
        ih fun front hfront => h front (hfront.trans (List.prefix_append segs [s]))
      intro front t back q n hsplit hcount hexecute
      rcases List.eq_nil_or_concat back with rfl | ⟨back, u, rfl⟩
      · -- the last segment: its zero run would make the number of steps too large
        obtain ⟨rfl, hs⟩ := List.append_inj' hsplit rfl
        obtain rfl : s = t := List.singleton_inj.mp hs
        by_contra hnext
        rw [Bool.not_eq_false] at hnext
        have hlt := nsteps_of_zeroRun nsteps hstart hend hsegs hexecute hcount hnext
        have hright := (h (segs ++ [s]) (List.prefix_refl _) (by simp)).executed hstart hend _ rfl
        rw [hright, execute_append_singleton, hexecute, hcount] at hlt
        exact Int.lt_irrefl n hlt
      · have hsplit' : segs ++ [s] = (front ++ t :: back) ++ [u] := by simpa using hsplit
        exact hsegs front t back q n (List.append_inj' hsplit' rfl).1 hcount hexecute

/-- A number without the digit 0 is not zero. -/
theorem count_ne_zero {s : Segment} (h : '0' ∉ s.digits) : s.count ≠ 0 := by
  obtain ⟨d, digits, hd, hdigits, hlength⟩ := s
  have hpos (a : Char) (ha : a ∈ digits) : 48 < a.toNat := by
    have hle := (Char.isDigit_iff_toNat.mp (hdigits a ha)).1
    have hzero : '0'.toNat = 48 := rfl
    have hne : a.toNat ≠ '0'.toNat := fun heq => h (Char.toNat_inj.mp heq ▸ ha)
    omega
  match digits, hdigits, hlength with
  | [], _, _ => simp [Segment.count]
  | [a], _, _ =>
      have ha := hpos a List.mem_cons_self
      simp only [Segment.count, List.foldl_cons, List.foldl_nil, List.cons_ne_nil, if_false]
      omega
  | [a, b], _, _ =>
      have ha := hpos a List.mem_cons_self
      simp only [Segment.count, List.foldl_cons, List.foldl_nil, List.cons_ne_nil, if_false]
      omega

/-- A course without the digit 0 is harmless. -/
theorem harmless_of_not_mem {sr sc er ec nsteps : Int} {course : List Char}
    (hnil : course = [] → nsteps = 0) (h : '0' ∉ course) :
    Harmless g sr sc er ec course nsteps := by
  rintro - - segs rfl
  refine ⟨fun hsegs => hnil (text_eq_nil_iff.mpr hsegs), ?_⟩
  rintro front s back q n rfl hcount
  refine absurd hcount (count_ne_zero fun hmem => h ?_)
  simp [text_append, hmem]

/-- A harmless course drives right, and if all the beginnings of a course drive right, the course
is harmless. -/
theorem course_right (g : Grid) (sr sc er ec : Int) (course : List Char) (nsteps : Int) :
    (Harmless g sr sc er ec course nsteps → DrivesRight g sr sc er ec course nsteps) ∧
    ((∀ segs, course = text segs → ∀ front, front <+: segs → (front = [] → segs = []) →
        DrivesRight g sr sc er ec (text front) nsteps) →
      Harmless g sr sc er ec course nsteps) := by
  refine ⟨drivesRight_of_harmless, fun h hstart hend segs hcourse => ⟨?_, ?_⟩⟩
  · rintro rfl
    have hright := (h [] hcourse [] (List.prefix_refl _) fun _ => rfl).executed hstart hend [] rfl
    have hnil := driveCourse_nil nsteps hstart hend
    rw [text_nil, hnil] at hright
    exact congrArg Prod.snd hright
  · refine noZeroRun_of_drivesRight nsteps hstart hend fun front hfront hne => ?_
    exact h segs hcourse front hfront fun hnil => absurd hnil hne

/-- One row of three empty cells. -/
def row : Grid := ⟨1, 3, fun _ _ => false⟩

theorem row_course_right : DrivesRight row 1 1 1 3 "e2W1e".toList 7 :=
  (course_right row 1 1 1 3 "e2W1e".toList 7).1 (harmless_of_not_mem (by decide) (by decide))

/-- The segment E0 drives two steps, and the empty course leaves `nsteps` as it was. -/
theorem row_course_wrong :
    ¬ DrivesRight row 1 1 1 1 "E0".toList 7 ∧ ¬ DrivesRight row 1 1 1 1 [] 7 := by
  constructor
  · intro h
    have hright := h.executed rfl rfl
      [⟨'E', ['0'], by decide, List.forall_mem_singleton.mpr rfl, by decide⟩] rfl
    have hwrong : driveCourse row 1 1 1 1 "E0".toList 7 = (1, 2) := by decide
    rw [hwrong] at hright
    exact absurd hright (by decide)
  · intro h
    have hright := h.executed rfl rfl [] rfl
    exact absurd hright (by decide)

end Coursework.Driving
