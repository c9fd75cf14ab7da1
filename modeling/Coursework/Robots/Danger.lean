import Mathlib.Algebra.Ring.Nat
import Coursework.Robots.Shooting

/-!
# The moves of the robots and the danger of a cell

Every robot moves in a random direction, or stays if a wall is in its way. `computeDanger` counts
the robots that might come to a cell: `danger_right` says that its result is the number of the
moves of robots that end there, so that the player is safe in a cell of danger 0 and only there.
A stream of numbers stands for the results of `rand()`.
Vocabulary and scope: `Coursework.Robots.Shooting`.
-/

namespace Coursework.Robots

/-- The results of the coming calls of `rand()`. -/
abbrev Random := Nat → Nat

/-- The stream behind the next number. -/
def Random.rest (random : Random) : Random :=
  fun k => random (k + 1)

/-- `Robot::move`, with the result of `rand()`. -/
def Robot.move (robot : Robot) (rows cols : Int) (random : Nat) : Robot :=
  let dir : Int := (random % 4 : Nat)
  if dir = up then if robot.mRow > 1 then { robot with mRow := robot.mRow - 1 } else robot
  else if dir = down then
    if robot.mRow < rows then { robot with mRow := robot.mRow + 1 } else robot
  else if dir = left then if robot.mCol > 1 then { robot with mCol := robot.mCol - 1 } else robot
  else if dir = right then
    if robot.mCol < cols then { robot with mCol := robot.mCol + 1 } else robot
  else robot

/-- The arena with `m_dead` of its player. -/
structure GameArena extends RobotArena where
  mDead : Bool

namespace GameArena

/-- The loop of `moveRobots`. -/
def moveEach (a : GameArena) (random : Random) : List RobotPtr → Option GameArena
  | [] => some a
  | p :: ptrs => do
      let robot ← a.objects p
      let robot := robot.move a.mRows a.mCols (random 0)
      let a := { a with objects := Function.update a.objects p (some robot) }
      let a := if robot.IsAt a.mPlayer.mRow a.mPlayer.mCol then { a with mDead := true } else a
      a.moveEach random.rest ptrs

/-- `moveRobots`. -/
def moveRobots (a : GameArena) (random : Random) : Option (Bool × GameArena) := do
  let a ← a.moveEach random a.inUse
  some (!a.mDead, a)

end GameArena

namespace RobotArena

/-- `computeDanger`. -/
def computeDanger (a : RobotArena) (r c : Int) : Option Nat := do
  let above ← if r > 1 then a.nRobotsAt (r - 1) c else a.nRobotsAt r c
  let below ← if r < a.mRows then a.nRobotsAt (r + 1) c else a.nRobotsAt r c
  let before ← if c > 1 then a.nRobotsAt r (c - 1) else a.nRobotsAt r c
  let behind ← if c < a.mCols then a.nRobotsAt r (c + 1) else a.nRobotsAt r c
  some (above + below + before + behind)

/-! ## What has to be shown -/

/-- The robots of the arena. -/
def robots (a : RobotArena) : List Robot :=
  a.inUse.filterMap a.objects

/-- The moves of robots that end in the cell, each robot with each direction. -/
def movesTo (a : RobotArena) (r c : Int) : Nat :=
  (a.robots.map fun robot =>
    (List.range 4).countP fun dir => (robot.move a.mRows a.mCols dir).IsAt r c).sum

variable {a : RobotArena} {r c : Int}

/-! ## Counting -/

/-- `nRobotsAt` counts the robots in the cell. -/
theorem countAt_eq {ptrs : List RobotPtr}
    (hobjects : ∀ p ∈ ptrs, ∃ robot, a.objects p = some robot) (r c : Int) :
    a.countAt r c ptrs =
      some ((ptrs.filterMap a.objects).countP fun robot => robot.IsAt r c) := by
  induction ptrs with
  | nil => rfl
  | cons p ptrs ih =>
      obtain ⟨⟨robot, hrobot⟩, hrest⟩ := List.forall_mem_cons.1 hobjects
      rw [List.filterMap_cons_some hrobot, List.countP_cons, countAt, hrobot, ih hrest]
      by_cases hat : robot.IsAt r c <;> simp [hat]

theorem Sound.nRobotsAt_eq (h : a.Sound) (r c : Int) :
    a.nRobotsAt r c = some (a.robots.countP fun robot => robot.IsAt r c) :=
  countAt_eq (fun p hp => (h.exists_robot p hp).imp fun _ h => h.1) r c

/-- The robots of the arena are inside of it. -/
theorem Sound.inside_of_mem (h : a.Sound) {robot : Robot} (hrobot : robot ∈ a.robots) :
    a.Inside robot.mRow robot.mCol := by
  obtain ⟨p, hp, hobject⟩ := List.mem_filterMap.1 hrobot
  obtain ⟨robot', hobject', -, hinside⟩ := h.exists_robot p hp
  obtain rfl := Option.some.inj (hobject.symm.trans hobject')
  exact hinside

/-- On a line with walls at its ends there are as many ways from `x` to `y` by one step as from `y`
to `x`. -/
theorem steps_symm {n x y : Int} (hx : 1 ≤ x ∧ x ≤ n) (hy : 1 ≤ y ∧ y ≤ n) :
    ((if (if x > 1 then x - 1 else x) = y then 1 else 0) +
        if (if x < n then x + 1 else x) = y then 1 else 0 : Nat) =
      (if x = (if y > 1 then y - 1 else y) then 1 else 0) +
        if x = (if y < n then y + 1 else y) then 1 else 0 := by
  split_ifs <;> omega

/-- The four moves of a robot. -/
theorem move_eq (robot : Robot) (rows cols : Int) :
    robot.move rows cols 0 =
        { robot with mRow := if robot.mRow > 1 then robot.mRow - 1 else robot.mRow } ∧
      robot.move rows cols 1 =
        { robot with mRow := if robot.mRow < rows then robot.mRow + 1 else robot.mRow } ∧
      robot.move rows cols 2 =
        { robot with mCol := if robot.mCol > 1 then robot.mCol - 1 else robot.mCol } ∧
      robot.move rows cols 3 =
        { robot with mCol := if robot.mCol < cols then robot.mCol + 1 else robot.mCol } := by
  refine ⟨?_, ?_, ?_, ?_⟩
  · show (if robot.mRow > 1 then { robot with mRow := robot.mRow - 1 } else robot) = _
    split_ifs <;> rfl
  · show (if robot.mRow < rows then { robot with mRow := robot.mRow + 1 } else robot) = _
    split_ifs <;> rfl
  · show (if robot.mCol > 1 then { robot with mCol := robot.mCol - 1 } else robot) = _
    split_ifs <;> rfl
  · show (if robot.mCol < cols then { robot with mCol := robot.mCol + 1 } else robot) = _
    split_ifs <;> rfl

/-- A robot that moves keeps its health. -/
theorem mHealth_move (robot : Robot) (rows cols : Int) (random : Nat) :
    (robot.move rows cols random).mHealth = robot.mHealth := by
  unfold Robot.move
  dsimp only
  split_ifs <;> rfl

/-- It stays in the arena. -/
theorem inside_move {robot : Robot} (h : a.Inside robot.mRow robot.mCol) (random : Nat) :
    a.Inside (robot.move a.mRows a.mCols random).mRow
      (robot.move a.mRows a.mCols random).mCol := by
  obtain ⟨hrow, hrow', hcol, hcol'⟩ := h
  unfold Robot.move
  dsimp only
  split_ifs <;> refine ⟨?_, ?_, ?_, ?_⟩ <;> first
    | assumption
    | dsimp only; omega

/-- The directions in which a robot comes to a cell, by the four cells that `computeDanger` looks
at. -/
theorem countP_move {robot : Robot} (hrobot : a.Inside robot.mRow robot.mCol)
    (hcell : a.Inside r c) :
    ((List.range 4).countP fun dir => (robot.move a.mRows a.mCols dir).IsAt r c) =
      ((if robot.IsAt (if r > 1 then r - 1 else r) c then 1 else 0) +
        if robot.IsAt (if r < a.mRows then r + 1 else r) c then 1 else 0) +
      ((if robot.IsAt r (if c > 1 then c - 1 else c) then 1 else 0) +
        if robot.IsAt r (if c < a.mCols then c + 1 else c) then 1 else 0) := by
  obtain ⟨hrow, hrow', hcol, hcol'⟩ := hrobot
  obtain ⟨hr, hr', hc, hc'⟩ := hcell
  obtain ⟨hup, hdown, hleft, hright⟩ := move_eq robot a.mRows a.mCols
  have hrows := steps_symm ⟨hrow, hrow'⟩ ⟨hr, hr'⟩
  have hcols := steps_symm ⟨hcol, hcol'⟩ ⟨hc, hc'⟩
  have hfour : List.range 4 = [0, 1, 2, 3] := rfl
  simp only [hfour, List.countP_cons, List.countP_nil, hup, hdown, hleft, hright, Robot.IsAt,
    decide_eq_true_eq, Nat.zero_add]
  by_cases hsameRow : robot.mRow = r <;> by_cases hsameCol : robot.mCol = c
  all_goals simp only [hsameRow, hsameCol, and_true, and_false, true_and, false_and, if_false] at *
  all_goals omega

/-- `computeDanger` of a cell is the number of the moves of robots that end there. -/
theorem Sound.computeDanger_eq (h : a.Sound) (hcell : a.Inside r c) :
    a.computeDanger r c = some (a.movesTo r c) := by
  have hsum : ∀ robots : List Robot, (∀ robot ∈ robots, a.Inside robot.mRow robot.mCol) →
      (robots.map fun robot =>
        (List.range 4).countP fun dir => (robot.move a.mRows a.mCols dir).IsAt r c).sum =
      (robots.countP fun robot => robot.IsAt (if r > 1 then r - 1 else r) c) +
        (robots.countP fun robot => robot.IsAt (if r < a.mRows then r + 1 else r) c) +
        (robots.countP fun robot => robot.IsAt r (if c > 1 then c - 1 else c)) +
        robots.countP fun robot => robot.IsAt r (if c < a.mCols then c + 1 else c) := by
    intro robots hinside
    induction robots with
    | nil => rfl
    | cons robot robots ih =>
        obtain ⟨hrobot, hrest⟩ := List.forall_mem_cons.1 hinside
        rw [List.map_cons, List.sum_cons, countP_move hrobot hcell, ih hrest]
        simp only [List.countP_cons, decide_eq_true_eq]
        omega
  simp only [computeDanger, h.nRobotsAt_eq, Option.bind_eq_bind, Option.bind_some]
  rw [movesTo, hsum a.robots fun robot => h.inside_of_mem]
  split_ifs <;> rfl

end RobotArena

/-! ## The moves of the robots -/

namespace GameArena

variable {a a' : GameArena} {r c : Int} {random : Random} {ptrs : List RobotPtr}

/-- The robots have moved one after the other, and the player is dead if he was or one of them is
where he is. -/
structure Moved (a : GameArena) (random : Random) (ptrs : List RobotPtr) (a' : GameArena) :
    Prop where
  arena : a'.toRobotArena = { a.toRobotArena with objects := a'.objects }
  moved : ∀ k p robot, ptrs[k]? = some p → a.objects p = some robot →
    a'.objects p = some (robot.move a.mRows a.mCols (random k))
  kept : ∀ p ∉ ptrs, a'.objects p = a.objects p
  dead : a'.mDead = true ↔ a.mDead = true ∨ ∃ p ∈ ptrs, ∃ robot, a'.objects p = some robot ∧
    robot.IsAt a.mPlayer.mRow a.mPlayer.mCol

/-- The loop of `moveRobots` moves every robot once. -/
theorem exists_moveEach (random : Random) (hnodup : ptrs.Nodup)
    (hobjects : ∀ p ∈ ptrs, ∃ robot, a.objects p = some robot) :
    ∃ a', a.moveEach random ptrs = some a' ∧ a.Moved random ptrs a' := by
  induction ptrs generalizing a random with
  | nil =>
      refine ⟨a, rfl, rfl, fun k p robot hp => by simp at hp, fun _ _ => rfl, ?_⟩
      simp
  | cons p ptrs ih =>
      obtain ⟨hp, hnodup⟩ := List.nodup_cons.1 hnodup
      obtain ⟨⟨robot, hrobot⟩, hrest⟩ := List.forall_mem_cons.1 hobjects
      have hne : ∀ {q}, q ∈ ptrs → q ≠ p := fun hq heq => hp (heq ▸ hq)
      generalize hnext : robot.move a.mRows a.mCols (random 0) = next
      -- the arena behind the first robot's move
      obtain ⟨a₁, hrun, harena, hdead⟩ : ∃ a₁ : GameArena,
          a.moveEach random (p :: ptrs) = a₁.moveEach random.rest ptrs ∧
          a₁.toRobotArena = { a.toRobotArena with
            objects := Function.update a.objects p (some next) } ∧
          (a₁.mDead = true ↔ a.mDead = true ∨ next.IsAt a.mPlayer.mRow a.mPlayer.mCol) := by
        simp only [moveEach, hrobot, Option.bind_eq_bind, Option.bind_some, hnext]
        split
        · next hat => exact ⟨_, rfl, rfl, by simp [hat]⟩
        · next hat => exact ⟨_, rfl, rfl, by simp [hat]⟩
      have hobjects₁ : a₁.objects = Function.update a.objects p (some next) :=
        congrArg RobotArena.objects harena
      have htoArena : a₁.toArena = a.toArena := by rw [harena]
      obtain ⟨a', hrun', hmoved⟩ := ih (a := a₁) random.rest hnodup fun q hq => by
        rw [hobjects₁, Function.update_of_ne (hne hq)]
        exact hrest q hq
      have hfirst : a'.objects p = some next := by
        rw [hmoved.kept p hp, hobjects₁, Function.update_self]
      refine ⟨a', hrun.trans hrun', ?_, fun k q robot' hq hrobot' => ?_, fun q hq => ?_, ?_⟩
      · rw [hmoved.arena, harena]
      · cases k with
        | zero =>
            obtain rfl := Option.some.inj hq
            obtain rfl := Option.some.inj (hrobot.symm.trans hrobot')
            rw [hfirst, ← hnext]
        | succ k =>
            have hmem : q ∈ ptrs := List.mem_of_getElem? hq
            rw [hmoved.moved k q robot' hq (by rw [hobjects₁, Function.update_of_ne (hne hmem)]
                                               exact hrobot'), htoArena]
            rfl
      · rw [List.mem_cons, not_or] at hq
        rw [hmoved.kept q hq.2, hobjects₁, Function.update_of_ne hq.1]
      · rw [hmoved.dead, hdead, htoArena, List.exists_mem_cons_iff, or_assoc, hfirst]
        simp

/-- The robots are as between two turns when they have moved. -/
theorem Moved.sound (hmoved : a.Moved random a.inUse a') (h : a.Sound) : a'.Sound := by
  have hinUse : a'.inUse = a.inUse := by
    rw [hmoved.arena]
    rfl
  refine ⟨?_, ?_, hinUse ▸ h.nodup, fun p hp => ?_, ?_⟩
  · rw [hmoved.arena]
    exact h.length_mRobots
  · rw [hmoved.arena]
    exact h.mNRobots_le
  · rw [hinUse] at hp
    obtain ⟨k, hk⟩ := List.mem_iff_getElem?.1 hp
    obtain ⟨robot, hrobot, hhealth, hinside⟩ := h.exists_robot p hp
    refine ⟨_, hmoved.moved k p robot hk hrobot, ?_, ?_⟩
    · rwa [RobotArena.mHealth_move]
    · rw [hmoved.arena]
      exact RobotArena.inside_move hinside (random k)
  · rw [hmoved.arena]
    exact h.player_inside

/-- A robot is in a cell after the moves if one of them has ended there. -/
theorem Moved.holdsRobot_iff (hmoved : a.Moved random a.inUse a') (h : a.Sound) :
    a'.HoldsRobot r c ↔ ∃ k p robot, a.inUse[k]? = some p ∧ a.objects p = some robot ∧
      (robot.move a.mRows a.mCols (random k)).IsAt r c := by
  have hinUse : a'.inUse = a.inUse := by
    rw [hmoved.arena]
    rfl
  unfold RobotArena.HoldsRobot
  rw [hinUse]
  constructor
  · rintro ⟨p, hp, robot', hrobot', hat⟩
    obtain ⟨k, hk⟩ := List.mem_iff_getElem?.1 hp
    obtain ⟨robot, hrobot, -⟩ := h.exists_robot p hp
    obtain rfl := Option.some.inj ((hmoved.moved k p robot hk hrobot).symm.trans hrobot')
    exact ⟨k, p, robot, hk, hrobot, hat⟩
  · rintro ⟨k, p, robot, hk, hrobot, hat⟩
    exact ⟨p, List.mem_of_getElem? hk, _, hmoved.moved k p robot hk hrobot, hat⟩

/-- `moveRobots` moves all robots, and its result is whether the player is alive then. -/
theorem exists_moveRobots (h : a.Sound) (random : Random) :
    ∃ a', a.moveRobots random = some (!a'.mDead, a') ∧ a.Moved random a.inUse a' ∧ a'.Sound ∧
      (a'.mDead = true ↔ a.mDead = true ∨ a'.HoldsRobot a'.mPlayer.mRow a'.mPlayer.mCol) := by
  obtain ⟨a', hrun, hmoved⟩ := exists_moveEach random h.nodup
    fun p hp => (h.exists_robot p hp).imp fun _ h => h.1
  have hinUse : a'.inUse = a.inUse := by
    rw [hmoved.arena]
    rfl
  refine ⟨a', by rw [moveRobots, hrun]; rfl, hmoved, hmoved.sound h, ?_⟩
  rw [hmoved.dead, RobotArena.HoldsRobot, hinUse, hmoved.arena]

/-- The danger of a cell is 0 if no robot can come to it in any turn. -/
theorem movesTo_eq_zero_iff (h : a.Sound) :
    a.movesTo r c = 0 ↔
      ∀ random alive a', a.moveRobots random = some (alive, a') → ¬ a'.HoldsRobot r c := by
  have hzero : a.movesTo r c = 0 ↔ ∀ robot ∈ a.robots, ∀ dir < 4,
      ¬ (robot.move a.mRows a.mCols dir).IsAt r c := by
    simp [RobotArena.movesTo, List.sum_eq_zero_iff_forall_eq_nat, List.countP_eq_zero]
  rw [hzero]
  constructor
  · rintro hnone random alive a' hrun
    obtain ⟨a₁, hrun₁, hmoved, -⟩ := exists_moveRobots h random
    obtain ⟨-, rfl⟩ := Prod.mk.inj (Option.some.inj (hrun₁.symm.trans hrun))
    rw [hmoved.holdsRobot_iff h]
    rintro ⟨k, p, robot, hk, hrobot, hat⟩
    refine hnone robot (List.mem_filterMap.2 ⟨p, List.mem_of_getElem? hk, hrobot⟩)
      (random k % 4) (Nat.mod_lt _ (by decide)) ?_
    rwa [Robot.move, Nat.mod_mod, ← Robot.move]
  · intro hnone robot hrobot dir _ hat
    obtain ⟨p, hp, hobject⟩ := List.mem_filterMap.1 hrobot
    obtain ⟨k, hk⟩ := List.mem_iff_getElem?.1 hp
    obtain ⟨a', hrun, hmoved, -⟩ := exists_moveRobots h fun _ => dir
    exact hnone _ _ a' hrun ((hmoved.holdsRobot_iff h).2 ⟨k, p, robot, hk, hobject, hat⟩)

/-- `computeDanger` of a cell is the number of the moves of robots that end in it, and it is 0 if
and only if no robot is there after the moves, whatever they are. -/
theorem danger_right (h : a.Sound) (hcell : a.Inside r c) :
    ∃ danger, a.computeDanger r c = some danger ∧ danger = a.movesTo r c ∧
      (danger = 0 ↔ ∀ random alive a', a.moveRobots random = some (alive, a') →
        ¬ a'.HoldsRobot r c) :=
  ⟨_, h.computeDanger_eq hcell, rfl, movesTo_eq_zero_iff h⟩

/-- The arena with one robot, and its player alive. -/
def oneRobotGame : GameArena :=
  { RobotArena.oneRobot with mDead := false }

/-- The danger of the cell beside the robot. -/
theorem danger_oneRobot : oneRobotGame.movesTo 2 3 = 1 ∧
    ∃ danger, oneRobotGame.computeDanger 2 3 = some danger ∧ danger = oneRobotGame.movesTo 2 3 ∧
      (danger = 0 ↔ ∀ random alive a', oneRobotGame.moveRobots random = some (alive, a') →
        ¬ a'.HoldsRobot 2 3) :=
  ⟨rfl, danger_right RobotArena.sound_oneRobot (by decide)⟩

end GameArena

end Coursework.Robots
