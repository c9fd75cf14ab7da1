import Coursework.OilField.Actors

/-!
# What a protester sees

`clearPath` looks at three columns or rows of squares, from where the protester is up to but without
where the player is (`clearPath_iff`). An actor covers four by four squares and is slid onto the
last position, so the fourth column or row and the end are not looked at; and when the
two are neither in one column nor in one row, nothing is looked at and the path counts as clear.
Vocabulary and scope: `Coursework.OilField.World`, and `sawPlayer` of `Coursework.OilField.Actors`.
-/

namespace Coursework.OilField

/-- The four by four squares of an actor at `p`. -/
def Covers (p q : Int × Int) : Prop :=
  (p.1 ≤ q.1 ∧ q.1 < p.1 + 4) ∧ p.2 ≤ q.2 ∧ q.2 < p.2 + 4

/-- Two positions in one column or in one row. -/
def Aligned (p q : Int × Int) : Prop :=
  p.1 = q.1 ∨ p.2 = q.2

/-- The positions from `start` to `finish`, both included. -/
def Between (start finish p : Int × Int) : Prop :=
  (min start.1 finish.1 ≤ p.1 ∧ p.1 ≤ max start.1 finish.1) ∧
    min start.2 finish.2 ≤ p.2 ∧ p.2 ≤ max start.2 finish.2

/-- The squares that `clearPath` looks at. -/
def Examined (start finish q : Int × Int) : Prop :=
  start.1 = finish.1 ∧ (start.1 ≤ q.1 ∧ q.1 < min (start.1 + 3) 63) ∧
      (start.2 ≤ q.2 ∧ q.2 < finish.2 ∨ finish.2 < q.2 ∧ q.2 ≤ start.2) ∨
    start.1 ≠ finish.1 ∧ start.2 = finish.2 ∧
      (start.1 ≤ q.1 ∧ q.1 < finish.1 ∨ finish.1 < q.1 ∧ q.1 ≤ start.1) ∧
      start.2 ≤ q.2 ∧ q.2 < min (start.2 + 3) 60

/-- A square that is looked at, other than the boulder's own position, is within reach of it. -/
def Noticed (start finish : Int × Int) (a : Actor) : Prop :=
  ∃ q : Int × Int, Examined start finish q ∧ q ≠ (a.x, a.y) ∧
    within 2 (q.1 + 2) (q.2 + 2) (a.x + 2) (a.y + 2) = true

namespace StudentWorld

variable (w : StudentWorld)

/-- There is Earth at a square of the field. -/
def HasEarth (q : Int × Int) : Prop :=
  (0 ≤ q.1 ∧ q.1 < 63) ∧ (0 ≤ q.2 ∧ q.2 < 60) ∧ w.ground q.1 q.2 = true

/-- An actor at `p` overlaps the boulder `a`. -/
def Overlaps (p : Int × Int) (a : Actor) : Prop :=
  a ∈ w.actors ∧ a.isBoulder = true ∧ ∃ q, Covers p q ∧ Covers (a.x, a.y) q

/-- An actor can be slid from `start` to `finish`. -/
def CanSlide (start finish : Int × Int) : Prop :=
  ∀ p, Between start finish p →
    (∀ q, Covers p q → ¬ w.HasEarth q) ∧ ∀ a, ¬ w.Overlaps p a

/-- A square that `clearPath` stops at. -/
def Obstructed (q : Int × Int) : Prop :=
  w.checkEarth q.1 q.2 = true ∨ w.blocked q.1 q.2 = true

/-- A path counts as clear only if an actor can be slid along it, and a protester at its start that
sees the player at its end does not move onto Earth. -/
def SeesRight (start finish : Int × Int) : Prop :=
  (w.clearPath start.1 start.2 finish.1 finish.2 = true →
    Aligned start finish ∧ w.CanSlide start finish) ∧
  ∀ a : Actor, (a.x, a.y) = start → (w.tunnelMan.x, w.tunnelMan.y) = finish →
    a.sawPlayer w = true →
      ∀ q, Covers ((a.moveTowardPlayer w).x, (a.moveTowardPlayer w).y) q → ¬ w.HasEarth q

/-- The positions are aligned, and either a square that is looked at stops the view, or there is no
Earth on the other squares that a sliding actor covers, and every boulder in its way is within
reach of a square that is looked at. -/
def NothingOverlooked (start finish : Int × Int) : Prop :=
  Aligned start finish ∧ ((∃ q, Examined start finish q ∧ w.Obstructed q) ∨
    (∀ p q, Between start finish p → Covers p q → ¬ Examined start finish q → ¬ w.HasEarth q) ∧
      ∀ p a, Between start finish p → w.Overlaps p a → Noticed start finish a)

end StudentWorld

variable {w : StudentWorld} {start finish q : Int × Int}

theorem mem_intRange {first last i : Int} : i ∈ intRange first last ↔ first ≤ i ∧ i < last := by
  unfold intRange
  rw [List.mem_map]
  constructor
  · intro h
    obtain ⟨n, hn, rfl⟩ := h
    rw [List.mem_range] at hn
    omega
  · intro h
    refine ⟨(i - first).toNat, ?_, ?_⟩
    · rw [List.mem_range]
      omega
    · omega

/-- Squares of these columns and rows that stop no view. -/
theorem squaresClear_iff {first last first' last' : Int} :
    w.squaresClear (intRange first last) (intRange first' last') = true ↔
      ∀ q : Int × Int, (first ≤ q.1 ∧ q.1 < last) ∧ first' ≤ q.2 ∧ q.2 < last' →
        ¬ w.Obstructed q := by
  simp only [StudentWorld.squaresClear, List.all_eq_true, mem_intRange, Bool.not_eq_true',
    Bool.or_eq_false_iff, StudentWorld.Obstructed, not_or, Bool.not_eq_true, Prod.forall]
  constructor
  · intro h x y hxy
    exact h y hxy.2 x hxy.1
  · intro h y hy x hx
    exact h x y ⟨hx, hy⟩

/-- What `clearPath` looks at. -/
theorem clearPath_iff : w.clearPath start.1 start.2 finish.1 finish.2 = true ↔
    ∀ q, Examined start finish q → ¬ w.Obstructed q := by
  unfold StudentWorld.clearPath Examined
  split
  · next hcolumn =>
    split
    · rw [squaresClear_iff]
      refine forall_congr' fun q => imp_congr_left ?_
      omega
    · split
      · rw [squaresClear_iff]
        refine forall_congr' fun q => imp_congr_left ?_
        omega
      · refine iff_of_true rfl fun q hq => ?_
        omega
  · next hcolumn =>
    split
    · split
      · rw [squaresClear_iff]
        refine forall_congr' fun q => imp_congr_left ?_
        omega
      · rw [squaresClear_iff]
        refine forall_congr' fun q => imp_congr_left ?_
        omega
    · refine iff_of_true rfl fun q hq => ?_
      omega

/-- A square of the field with Earth stops the view. -/
theorem StudentWorld.HasEarth.obstructed (h : w.HasEarth q) : w.Obstructed q := by
  obtain ⟨hx, hy, hground⟩ := h
  left
  rw [StudentWorld.checkEarth, if_pos ⟨hx.1, hx.2, hy.1, hy.2⟩]
  exact hground

/-- A boulder within reach of a square that is looked at stops the view. -/
theorem Noticed.obstructed {a : Actor} (h : Noticed start finish a) (ha : a ∈ w.actors)
    (hboulder : a.isBoulder = true) : ∃ q, Examined start finish q ∧ w.Obstructed q := by
  obtain ⟨q, hq, hne, hreach⟩ := h
  refine ⟨q, hq, Or.inr ?_⟩
  unfold StudentWorld.blocked
  rw [List.any_eq_true]
  refine ⟨a, ha, ?_⟩
  have hother : (q.1 == a.x && q.2 == a.y) = false := by
    rw [Bool.eq_false_iff]
    intro hsame
    rw [Bool.and_eq_true, beq_iff_eq, beq_iff_eq] at hsame
    exact hne (Prod.ext hsame.1 hsame.2)
  rw [hboulder, hother, hreach]
  rfl

/-- A protester that walks toward the player stays between where it was and the player. -/
theorem moveTowardPlayer_between {a : Actor} :
    Between (a.x, a.y) (w.tunnelMan.x, w.tunnelMan.y)
      ((a.moveTowardPlayer w).x, (a.moveTowardPlayer w).y) := by
  unfold Between Actor.moveTowardPlayer
  split
  · show (_ ≤ a.x + 1 ∧ a.x + 1 ≤ _) ∧ _ ≤ a.y ∧ a.y ≤ _
    omega
  · split
    · show (_ ≤ a.x - 1 ∧ a.x - 1 ≤ _) ∧ _ ≤ a.y ∧ a.y ≤ _
      omega
    · split
      · show (_ ≤ a.x ∧ a.x ≤ _) ∧ _ ≤ a.y + 1 ∧ a.y + 1 ≤ _
        omega
      · split
        · show (_ ≤ a.x ∧ a.x ≤ _) ∧ _ ≤ a.y - 1 ∧ a.y - 1 ≤ _
          omega
        · omega

/-- Exactly the views in which nothing is overlooked are right. -/
theorem seesRight_iff (w : StudentWorld) (start finish : Int × Int) :
    w.SeesRight start finish ↔ w.NothingOverlooked start finish := by
  constructor
  · intro h
    obtain ⟨hclear, -⟩ := h
    have haligned : Aligned start finish := by
      by_contra hnot
      -- without a common column or row nothing is looked at
      refine hnot (hclear (clearPath_iff.2 fun q hq => ?_)).1
      unfold Aligned at hnot
      unfold Examined at hq
      omega
    refine ⟨haligned, ?_⟩
    by_cases hstop : ∃ q, Examined start finish q ∧ w.Obstructed q
    · exact Or.inl hstop
    · right
      have hexamined : ∀ q, Examined start finish q → ¬ w.Obstructed q :=
        fun q hq hobstructed => hstop ⟨q, hq, hobstructed⟩
      have hslide := (hclear (clearPath_iff.2 hexamined)).2
      exact ⟨fun p q hp hq _ => (hslide p hp).1 q hq,
        fun p a hp hover => absurd hover ((hslide p hp).2 a)⟩
  · intro h
    obtain ⟨haligned, hrest⟩ := h
    have hclear : w.clearPath start.1 start.2 finish.1 finish.2 = true →
        Aligned start finish ∧ w.CanSlide start finish := by
      intro hclear
      have hexamined := clearPath_iff.1 hclear
      refine ⟨haligned, fun p hp => ?_⟩
      rcases hrest with ⟨q, hq, hobstructed⟩ | ⟨hearth, hboulder⟩
      · exact absurd hobstructed (hexamined q hq)
      · constructor
        · intro q hq hhas
          by_cases hseen : Examined start finish q
          · exact hexamined q hseen hhas.obstructed
          · exact hearth p q hp hq hseen hhas
        · intro a hover
          obtain ⟨q, hq, hobstructed⟩ := (hboulder p a hp hover).obstructed hover.1 hover.2.1
          exact hexamined q hq hobstructed
    refine ⟨hclear, fun a ha hplayer hsaw q hq => ?_⟩
    subst ha hplayer
    exact ((hclear hsaw).2 _ moveTowardPlayer_between).1 q hq

/-- A protester in the shaft. -/
def shaftProtester : Actor :=
  ⟨30, 50, .left, true, false, .searching, .regularProtestor ⟨false, 5, [], 8, 3, 0⟩⟩

/-- A shaft of four columns and a tunnel of four rows, with the player in the tunnel. -/
def shaftAndTunnel : StudentWorld where
  level := 0
  lives := 3
  score := 0
  tunnelMan := ⟨20, 40, .right, .alive, false, 10, 5, 1, 0⟩
  actors := [shaftProtester]
  ground x y := !decide (30 ≤ x ∧ x < 34 ∨ 40 ≤ y ∧ y < 44)
  protestorMaze := []
  barrelsLeft := 2
  draws := []
  stray _ _ := false

/-- From the shaft the player in the tunnel counts as seen, and the protester walks onto Earth. -/
theorem shaftAndTunnel_not_seesRight : ¬ shaftAndTunnel.SeesRight (30, 50) (20, 40) := by
  intro h
  have hstep := h.2 shaftProtester rfl rfl rfl (29, 50)
  refine hstep ⟨⟨?_, ?_⟩, ?_, ?_⟩ ⟨⟨?_, ?_⟩, ⟨?_, ?_⟩, ?_⟩
  all_goals decide

end Coursework.OilField
