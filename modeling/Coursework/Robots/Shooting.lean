import Mathlib.Data.List.Perm.Lattice
import Mathlib.Data.Set.Basic
import Mathlib.Order.Bounds.Basic
import Coursework.Robots.History

/-!
# The robots and the shots of the robots game

`m_robots` holds pointers to the robots, the first `m_nRobots` of them in use. A shot walks along a
ray until it is in the cell of a robot, and `damageRobotAt` takes a robot that dies out of the array
by moving the last pointer to its place. `shoot_right` says which robot is damaged and that all
others stay. An access to an object that does not exist is `none`.
-/

namespace Coursework.Robots

/-- `MAXROBOTS`. -/
def maxRobots : Nat := 130

/-- `MAXSHOTLEN`. -/
def maxShotLen : Nat := 5

/-- `INITIAL_ROBOT_HEALTH`. -/
def initialRobotHealth : Int := 2

/-- `UP`, `DOWN`, `LEFT` and `RIGHT`. -/
def up : Int := 0

def down : Int := 1

def left : Int := 2

def right : Int := 3

/-- An object of the class `Robot`. -/
structure Robot where
  mRow : Int
  mCol : Int
  mHealth : Int
  deriving DecidableEq

/-- Where an object lies. -/
abbrev RobotPtr := Nat

/-- The arena with its robots. -/
structure RobotArena extends Arena where
  mRobots : List RobotPtr
  mNRobots : Nat
  objects : RobotPtr → Option Robot

namespace Robot

/-- `rp->row() == r && rp->col() == c`. -/
def IsAt (robot : Robot) (r c : Int) : Prop :=
  robot.mRow = r ∧ robot.mCol = c

instance (robot : Robot) (r c : Int) : Decidable (robot.IsAt r c) :=
  inferInstanceAs (Decidable (_ ∧ _))

/-- `takeDamageAndLive`. -/
def takeDamageAndLive (robot : Robot) : Bool × Robot :=
  let robot := if robot.mHealth > 0 then { robot with mHealth := robot.mHealth - 1 } else robot
  (robot.mHealth > 0, robot)

end Robot

/-- `Arena::rows`, `Arena::cols`: whether a cell lies in the arena. -/
def Arena.Inside (a : Arena) (r c : Int) : Prop :=
  r ≥ 1 ∧ r ≤ a.mRows ∧ c ≥ 1 ∧ c ≤ a.mCols

instance (a : Arena) (r c : Int) : Decidable (a.Inside r c) :=
  inferInstanceAs (Decidable (_ ∧ _))

namespace RobotArena

/-- The pointers that are in use. -/
def inUse (a : RobotArena) : List RobotPtr :=
  a.mRobots.take a.mNRobots

/-- `addRobot`, where `new` returns `p`, for a cell of the arena. -/
def addRobot (a : RobotArena) (p : RobotPtr) (r c : Int) : Bool × RobotArena :=
  if a.mNRobots = maxRobots then (false, a)
  else (true, { a with
    mRobots := a.mRobots.set a.mNRobots p
    mNRobots := a.mNRobots + 1
    objects := Function.update a.objects p (some ⟨r, c, initialRobotHealth⟩) })

/-- The loop of `nRobotsAt`. -/
def countAt (a : RobotArena) (r c : Int) : List RobotPtr → Option Nat
  | [] => some 0
  | p :: ptrs => do
      let robot ← a.objects p
      let count ← a.countAt r c ptrs
      some (if robot.IsAt r c then count + 1 else count)

/-- `nRobotsAt`. -/
def nRobotsAt (a : RobotArena) (r c : Int) : Option Nat :=
  a.countAt r c a.inUse

/-- The loop of `damageRobotAt`, from the place `k` on. -/
def searchAt (a : RobotArena) (r c : Int) (k : Nat) : List RobotPtr → Option Nat
  | [] => some k
  | p :: ptrs => do
      let robot ← a.objects p
      if robot.IsAt r c then some k else a.searchAt r c (k + 1) ptrs

/-- `damageRobotAt`. -/
def damageRobotAt (a : RobotArena) (r c : Int) : Option RobotArena := do
  let k ← a.searchAt r c 0 a.inUse
  if k < a.mNRobots then do
    let p ← a.mRobots[k]?
    let robot ← a.objects p
    let (lives, robot) := robot.takeDamageAndLive
    if lives then some { a with objects := Function.update a.objects p (some robot) }
    else do
      let last ← a.mRobots[a.mNRobots - 1]?
      some { a with
        mRobots := a.mRobots.set k last
        mNRobots := a.mNRobots - 1
        objects := Function.update a.objects p none }
  else some a

/-- The loop of `shoot`, with the number of steps that are left. -/
def shootLoop (a : RobotArena) (rDelta cDelta : Int) (steps : Nat) (r c : Int) :
    Option (Bool × RobotArena) := do
  let n ← a.nRobotsAt r c
  if n > 0 then do
    let a ← a.damageRobotAt r c
    some (true, a)
  else match steps with
    | 0 => some (false, a)
    | steps + 1 =>
        if a.Inside (r + rDelta) (c + cDelta) then
          shootLoop a rDelta cDelta steps (r + rDelta) (c + cDelta)
        else some (false, a)

end RobotArena

/-- `rDelta`. -/
def rowDelta (dir : Int) : Int :=
  if dir = up then -1 else if dir = down then 1 else 0

/-- `cDelta`. -/
def colDelta (dir : Int) : Int :=
  if dir = left then -1 else if dir = right then 1 else 0

/-- One of the four directions. -/
def IsDirection (dir : Int) : Prop :=
  dir = up ∨ dir = down ∨ dir = left ∨ dir = right

instance (dir : Int) : Decidable (IsDirection dir) :=
  inferInstanceAs (Decidable (_ ∨ _))

/-- The player is one turn older. -/
def Player.aged (p : Player) : Player :=
  { p with mAge := p.mAge + 1 }

/-- The arena with an older player. -/
def RobotArena.aged (a : RobotArena) : RobotArena :=
  { a with mPlayer := a.mPlayer.aged }

/-- `Player::shoot`, with the result of `rand()`. -/
def RobotArena.shoot (a : RobotArena) (random : Nat) (dir : Int) : Option (Bool × RobotArena) :=
  let a := a.aged
  if random % 3 = 0 then some (false, a)
  else if IsDirection dir then
    a.shootLoop (rowDelta dir) (colDelta dir) maxShotLen a.mPlayer.mRow a.mPlayer.mCol
  else some (false, a)

/-! ## What has to be shown -/

namespace RobotArena

/-- What holds of an arena between two turns. -/
structure Sound (a : RobotArena) : Prop where
  length_mRobots : a.mRobots.length = maxRobots
  mNRobots_le : a.mNRobots ≤ maxRobots
  /-- Each robot has its own object. -/
  nodup : a.inUse.Nodup
  exists_robot : ∀ p ∈ a.inUse, ∃ robot, a.objects p = some robot ∧
    (robot.mHealth = 1 ∨ robot.mHealth = 2) ∧ a.Inside robot.mRow robot.mCol
  player_inside : a.Inside a.mPlayer.mRow a.mPlayer.mCol

/-- A robot is in the cell. -/
def HoldsRobot (a : RobotArena) (r c : Int) : Prop :=
  ∃ p ∈ a.inUse, ∃ robot, a.objects p = some robot ∧ robot.IsAt r c

/-- The row at a distance from the player. -/
def rowAt (a : RobotArena) (dir : Int) (d : Nat) : Int :=
  a.mPlayer.mRow + d * rowDelta dir

/-- The column at a distance from the player. -/
def colAt (a : RobotArena) (dir : Int) (d : Nat) : Int :=
  a.mPlayer.mCol + d * colDelta dir

/-- The distances at which a shot can hit a robot. -/
def Targets (a : RobotArena) (dir : Int) : Set Nat :=
  { d | d ≤ maxShotLen ∧ a.Inside (a.rowAt dir d) (a.colAt dir d) ∧
    a.HoldsRobot (a.rowAt dir d) (a.colAt dir d) }

/-- One robot in the cell has lost a health point, and is gone if it had no other. All other robots
are still there, and as they were. -/
def DamagedAt (a : RobotArena) (r c : Int) (a' : RobotArena) : Prop :=
  ∃ p ∈ a.inUse, ∃ robot, a.objects p = some robot ∧ robot.IsAt r c ∧
    a'.toArena = a.toArena ∧
    a'.objects = Function.update a.objects p (if robot.mHealth - 1 = 0 then none
      else some { robot with mHealth := robot.mHealth - 1 }) ∧
    a'.inUse.Perm (if robot.mHealth - 1 = 0 then a.inUse.erase p else a.inUse)

variable {a : RobotArena} {r c : Int} {ptrs : List RobotPtr}

/-! ## Adding robots -/

/-- The robot is the last one. -/
theorem inUse_addRobot (hfull : a.mNRobots ≠ maxRobots) (hlt : a.mNRobots < a.mRobots.length)
    (p : RobotPtr) (r c : Int) : (a.addRobot p r c).2.inUse = a.inUse ++ [p] := by
  rw [addRobot, if_neg hfull]
  show (a.mRobots.set a.mNRobots p).take (a.mNRobots + 1) = a.mRobots.take a.mNRobots ++ [p]
  rw [List.set_eq_take_append_cons_drop, if_pos hlt, List.take_append,
    List.take_of_length_le (by rw [List.length_take]; omega), List.length_take,
    Nat.min_eq_left hlt.le, Nat.add_sub_cancel_left]
  rfl

/-- A new robot in the arena keeps it sound. -/
theorem Sound.addRobot (h : a.Sound) {p : RobotPtr} (hnew : a.objects p = none)
    (hinside : a.Inside r c) : (a.addRobot p r c).2.Sound := by
  by_cases hfull : a.mNRobots = maxRobots
  · rw [RobotArena.addRobot, if_pos hfull]
    exact h
  have hlt : a.mNRobots < a.mRobots.length :=
    h.length_mRobots ▸ Nat.lt_of_le_of_ne h.mNRobots_le hfull
  have hne : ∀ q ∈ a.inUse, q ≠ p := by
    rintro q hq rfl
    obtain ⟨robot, hrobot, -⟩ := h.exists_robot q hq
    rw [hnew] at hrobot
    cases hrobot
  have hinUse := inUse_addRobot hfull hlt p r c
  refine ⟨?_, ?_, ?_, fun q hq => ?_, ?_⟩
  · rw [RobotArena.addRobot, if_neg hfull]
    exact List.length_set.trans h.length_mRobots
  · rw [RobotArena.addRobot, if_neg hfull]
    exact Nat.lt_of_le_of_ne h.mNRobots_le hfull
  · rw [hinUse]
    exact h.nodup.append (List.nodup_singleton p)
      (List.disjoint_singleton.2 fun hp => hne p hp rfl)
  · rw [hinUse, List.mem_append, List.mem_singleton] at hq
    rw [RobotArena.addRobot, if_neg hfull]
    show ∃ robot, Function.update a.objects p _ q = some robot ∧ _
    rcases hq with hq | rfl
    · rw [Function.update_of_ne (hne q hq)]
      exact h.exists_robot q hq
    · rw [Function.update_self]
      exact ⟨_, rfl, .inr rfl, hinside⟩
  · rw [RobotArena.addRobot, if_neg hfull]
    exact h.player_inside

/-! ## Searching -/

/-- `nRobotsAt` counts robots if there are some. -/
theorem exists_countAt (hobjects : ∀ p ∈ ptrs, ∃ robot, a.objects p = some robot) (r c : Int) :
    ∃ n, a.countAt r c ptrs = some n ∧
      (0 < n ↔ ∃ p ∈ ptrs, ∃ robot, a.objects p = some robot ∧ robot.IsAt r c) := by
  induction ptrs with
  | nil => exact ⟨0, rfl, by simp⟩
  | cons p ptrs ih =>
      obtain ⟨⟨robot, hrobot⟩, hrest⟩ := List.forall_mem_cons.1 hobjects
      obtain ⟨n, hn, hpos⟩ := ih hrest
      refine ⟨if robot.IsAt r c then n + 1 else n, by simp [countAt, hrobot, hn], ?_⟩
      rw [List.exists_mem_cons_iff, ← hpos]
      by_cases hat : robot.IsAt r c
      · rw [if_pos hat]
        exact iff_of_true (Nat.succ_pos n) (.inl ⟨robot, hrobot, hat⟩)
      · rw [if_neg hat]
        refine ⟨.inr, fun h => h.resolve_left ?_⟩
        rintro ⟨robot', hrobot', hat'⟩
        obtain rfl := Option.some.inj (hrobot.symm.trans hrobot')
        exact hat hat'

/-- The loop of `damageRobotAt` finds the first robot in the cell. -/
theorem exists_searchAt (hobjects : ∀ p ∈ ptrs, ∃ robot, a.objects p = some robot)
    (hholds : ∃ p ∈ ptrs, ∃ robot, a.objects p = some robot ∧ robot.IsAt r c) (k : Nat) :
    ∃ front p back robot, ptrs = front ++ p :: back ∧ a.objects p = some robot ∧
      robot.IsAt r c ∧ a.searchAt r c k ptrs = some (k + front.length) := by
  induction ptrs generalizing k with
  | nil => simp at hholds
  | cons p ptrs ih =>
      obtain ⟨⟨robot, hrobot⟩, hrest⟩ := List.forall_mem_cons.1 hobjects
      by_cases hat : robot.IsAt r c
      · exact ⟨[], p, ptrs, robot, rfl, hrobot, hat, by simp [searchAt, hrobot, hat]⟩
      · have hholds' : ∃ p ∈ ptrs, ∃ robot, a.objects p = some robot ∧ robot.IsAt r c := by
          refine ((List.exists_mem_cons_iff _ _ _).1 hholds).resolve_left ?_
          rintro ⟨robot', hrobot', hat'⟩
          obtain rfl := Option.some.inj (hrobot.symm.trans hrobot')
          exact hat hat'
        obtain ⟨front, p', back, robot', rfl, hrobot', hat', hsearch⟩ := ih hrest hholds' (k + 1)
        refine ⟨p :: front, p', back, robot', rfl, hrobot', hat', ?_⟩
        simp only [searchAt, hrobot, Option.bind_eq_bind, Option.bind_some, if_neg hat, hsearch]
        rw [List.length_cons, Nat.add_right_comm, Nat.add_assoc]

/-! ## Damaging -/

theorem takeDamageAndLive_of_pos {robot : Robot} (h : 0 < robot.mHealth) :
    robot.takeDamageAndLive =
      (decide (robot.mHealth - 1 > 0), { robot with mHealth := robot.mHealth - 1 }) := by
  rw [Robot.takeDamageAndLive, if_pos h]

/-- The last place in use is moved to the place of the pointer that is taken out. -/
theorem take_set_perm {ptrs front back : List RobotPtr} {p : RobotPtr} {n : Nat}
    (h : ptrs.take n = front ++ p :: back) (hn : n ≤ ptrs.length) :
    ∃ last, ptrs[n - 1]? = some last ∧
      ((ptrs.set front.length last).take (n - 1)).Perm (front ++ back) := by
  obtain ⟨rest, rfl⟩ : ∃ rest, ptrs = front ++ p :: back ++ rest :=
    ⟨ptrs.drop n, by rw [← h, List.take_append_drop]⟩
  obtain rfl : n = front.length + (back.length + 1) := by
    have hlength := congrArg List.length h
    simp at hlength hn
    omega
  rcases List.eq_nil_or_concat back with rfl | ⟨back, last, rfl⟩
  · refine ⟨p, by simp, ?_⟩
    simp
  · refine ⟨last, by simp, ?_⟩
    have hmoved : (front ++ p :: back.concat last ++ rest).set front.length last =
        (front ++ last :: back) ++ (last :: rest) := by simp
    rw [hmoved, List.take_left' (by simp), List.concat_eq_append]
    exact List.Perm.append_left front (List.perm_append_singleton last back).symm

/-- The robot that `damageRobotAt` damages, and what it does to it. -/
theorem Sound.exists_found (h : a.Sound) (hholds : a.HoldsRobot r c) :
    ∃ front p back robot, a.inUse = front ++ p :: back ∧ a.objects p = some robot ∧
      robot.IsAt r c ∧ (robot.mHealth = 1 ∨ robot.mHealth = 2) ∧ a.damageRobotAt r c =
        if robot.mHealth - 1 > 0 then
          some { a with
            objects := Function.update a.objects p
              (some { robot with mHealth := robot.mHealth - 1 }) }
        else a.mRobots[a.mNRobots - 1]?.bind fun last =>
          some { a with
            mRobots := a.mRobots.set front.length last
            mNRobots := a.mNRobots - 1
            objects := Function.update a.objects p none } := by
  obtain ⟨front, p, back, robot, hptrs, hrobot, hat, hsearch⟩ := exists_searchAt
    (fun p hp => (h.exists_robot p hp).imp fun _ h => h.1) hholds 0
  rw [Nat.zero_add] at hsearch
  have hp : p ∈ a.inUse := hptrs ▸ List.mem_append_right front List.mem_cons_self
  have hk : front.length < a.mNRobots := by
    have hlength := congrArg List.length hptrs
    simp [inUse] at hlength
    omega
  have hplace : a.mRobots[front.length]? = some p := by
    have hget : a.inUse[front.length]? = some p := by simp [hptrs]
    rwa [inUse, List.getElem?_take_of_lt hk] at hget
  obtain ⟨robot', hrobot', hhealth, -⟩ := h.exists_robot p hp
  obtain rfl := Option.some.inj (hrobot.symm.trans hrobot')
  have hpos : 0 < robot.mHealth := by omega
  refine ⟨front, p, back, robot, hptrs, hrobot, hat, hhealth, ?_⟩
  simp only [damageRobotAt, hsearch, Option.bind_eq_bind, Option.bind_some, if_pos hk, hplace,
    hrobot, takeDamageAndLive_of_pos hpos, decide_eq_true_eq]

/-- A damaged robot and the other ones are as between two turns. -/
theorem DamagedAt.sound {a' : RobotArena} (hdamaged : a.DamagedAt r c a') (h : a.Sound)
    (hlength : a'.mRobots.length = maxRobots) (hle : a'.mNRobots ≤ maxRobots) : a'.Sound := by
  obtain ⟨p, hp, robot, hrobot, -, harena, hobjects, hperm⟩ := hdamaged
  obtain ⟨robot', hrobot', hhealth, hinside⟩ := h.exists_robot p hp
  obtain rfl := Option.some.inj (hrobot.symm.trans hrobot')
  refine ⟨hlength, hle, ?_, fun q hq => ?_, ?_⟩
  · refine hperm.nodup_iff.2 ?_
    split_ifs
    · exact h.nodup.erase p
    · exact h.nodup
  · have hq := hperm.mem_iff.1 hq
    rw [harena, hobjects]
    by_cases hqp : q = p
    · subst hqp
      rw [Function.update_self]
      split_ifs at hq ⊢ with hdead
      · exact absurd hq h.nodup.not_mem_erase
      · exact ⟨_, rfl, by show robot.mHealth - 1 = 1 ∨ _; omega, hinside⟩
    · rw [Function.update_of_ne hqp]
      refine h.exists_robot q ?_
      split_ifs at hq
      · exact List.mem_of_mem_erase hq
      · exact hq
  · rw [harena]
    exact h.player_inside

/-- `damageRobotAt` damages one robot in the cell. -/
theorem Sound.exists_damageRobotAt (h : a.Sound) (hholds : a.HoldsRobot r c) :
    ∃ a', a.damageRobotAt r c = some a' ∧ a.DamagedAt r c a' ∧ a'.Sound := by
  obtain ⟨front, p, back, robot, hptrs, hrobot, hat, hhealth, hrun⟩ := h.exists_found hholds
  have hp : p ∈ a.inUse := hptrs ▸ List.mem_append_right front List.mem_cons_self
  have hle : a.mNRobots ≤ a.mRobots.length := h.length_mRobots ▸ h.mNRobots_le
  rcases hhealth with hone | htwo
  · -- the robot dies
    obtain ⟨last, hlast, hperm⟩ := take_set_perm hptrs hle
    rw [if_neg (by omega), hlast, Option.bind_some] at hrun
    have hdamaged : a.DamagedAt r c { a with
        mRobots := a.mRobots.set front.length last
        mNRobots := a.mNRobots - 1
        objects := Function.update a.objects p none } := by
      refine ⟨p, hp, robot, hrobot, hat, rfl, ?_, ?_⟩
      · rw [if_pos (by omega)]
      · have hnodup := h.nodup
        rw [hptrs, List.nodup_middle, List.nodup_cons, List.mem_append, not_or] at hnodup
        rw [if_pos (by omega), hptrs, List.erase_append_right _ hnodup.1.1, List.erase_cons_head]
        exact hperm
    exact ⟨_, hrun, hdamaged, hdamaged.sound h (by simpa using h.length_mRobots)
      ((Nat.sub_le _ _).trans h.mNRobots_le)⟩
  · -- the robot lives
    rw [if_pos (by omega)] at hrun
    have hdamaged : a.DamagedAt r c { a with
        objects := Function.update a.objects p
          (some { robot with mHealth := robot.mHealth - 1 }) } := by
      refine ⟨p, hp, robot, hrobot, hat, rfl, ?_, ?_⟩
      · rw [if_neg (by omega)]
      · rw [if_neg (by omega)]
        exact .refl _
    exact ⟨_, hrun, hdamaged, hdamaged.sound h h.length_mRobots h.mNRobots_le⟩

/-! ## Shooting -/

section Shooting

variable {dir : Int} {d : Nat}

theorem Sound.exists_nRobotsAt (h : a.Sound) (r c : Int) :
    ∃ n, a.nRobotsAt r c = some n ∧ (0 < n ↔ a.HoldsRobot r c) :=
  exists_countAt (fun p hp => (h.exists_robot p hp).imp fun _ h => h.1) r c

theorem rowAt_succ (a : RobotArena) (dir : Int) (d : Nat) :
    a.rowAt dir (d + 1) = a.rowAt dir d + rowDelta dir := by
  rw [rowAt, rowAt, Int.natCast_succ, Int.add_mul, Int.one_mul, Int.add_assoc]

theorem colAt_succ (a : RobotArena) (dir : Int) (d : Nat) :
    a.colAt dir (d + 1) = a.colAt dir d + colDelta dir := by
  rw [colAt, colAt, Int.natCast_succ, Int.add_mul, Int.one_mul, Int.add_assoc]

theorem delta_cases (hdir : IsDirection dir) :
    (rowDelta dir = -1 ∧ colDelta dir = 0) ∨ (rowDelta dir = 1 ∧ colDelta dir = 0) ∨
      (rowDelta dir = 0 ∧ colDelta dir = -1) ∨ (rowDelta dir = 0 ∧ colDelta dir = 1) := by
  rcases hdir with rfl | rfl | rfl | rfl <;> decide

/-- A ray that has left the arena does not come back. -/
theorem Sound.inside_of_le (h : a.Sound) (hdir : IsDirection dir) {d' : Nat} (hle : d ≤ d')
    (hinside : a.Inside (a.rowAt dir d') (a.colAt dir d')) :
    a.Inside (a.rowAt dir d) (a.colAt dir d) := by
  have hplayer := h.player_inside
  unfold Arena.Inside rowAt colAt at *
  rcases delta_cases hdir with ⟨hrow, hcol⟩ | ⟨hrow, hcol⟩ | ⟨hrow, hcol⟩ | ⟨hrow, hcol⟩ <;>
    rw [hrow, hcol] at hinside ⊢ <;> omega

/-- A target is the nearest one if there is no robot before it. -/
theorem isLeast_targets (hle : d ≤ maxShotLen) (hinside : a.Inside (a.rowAt dir d) (a.colAt dir d))
    (hbefore : ∀ d' < d, ¬ a.HoldsRobot (a.rowAt dir d') (a.colAt dir d'))
    (hholds : a.HoldsRobot (a.rowAt dir d) (a.colAt dir d)) : IsLeast (a.Targets dir) d := by
  refine ⟨⟨hle, hinside, hholds⟩, fun d' hd' => ?_⟩
  by_contra hlt
  exact hbefore d' (Nat.lt_of_not_le hlt) hd'.2.2

/-- There is no target if there is no robot up to a distance and the ray ends behind it. -/
theorem targets_eq_empty (hbefore : ∀ d' ≤ d, ¬ a.HoldsRobot (a.rowAt dir d') (a.colAt dir d'))
    (hend : ∀ d' ≤ maxShotLen, d < d' → ¬ a.Inside (a.rowAt dir d') (a.colAt dir d')) :
    a.Targets dir = ∅ := by
  refine Set.eq_empty_iff_forall_notMem.2 fun d' hd' => ?_
  obtain ⟨hle, hinside, hholds⟩ := hd'
  rcases Nat.lt_or_ge d d' with hlt | hge
  · exact hend d' hle hlt hinside
  · exact hbefore d' hge hholds

/-- The loop ends at a robot. -/
theorem Sound.shootLoop_of_holds (h : a.Sound) (hholds : a.HoldsRobot r c) (dir : Int)
    (steps : Nat) :
    ∃ a', a.shootLoop (rowDelta dir) (colDelta dir) steps r c = some (true, a') ∧
      a.DamagedAt r c a' ∧ a'.Sound := by
  obtain ⟨n, hn, hpos⟩ := h.exists_nRobotsAt r c
  obtain ⟨a', hrun, hdamaged, hsound⟩ := h.exists_damageRobotAt hholds
  refine ⟨a', ?_, hdamaged, hsound⟩
  rw [shootLoop.eq_def, hn, Option.bind_eq_bind, Option.bind_some, if_pos (hpos.2 hholds), hrun]
  rfl

/-- The loop passes a cell without robots. -/
theorem Sound.shootLoop_of_free (h : a.Sound) (hfree : ¬ a.HoldsRobot r c) (dir : Int)
    (steps : Nat) :
    a.shootLoop (rowDelta dir) (colDelta dir) steps r c =
      match steps with
      | 0 => some (false, a)
      | steps + 1 =>
          if a.Inside (r + rowDelta dir) (c + colDelta dir) then
            a.shootLoop (rowDelta dir) (colDelta dir) steps (r + rowDelta dir) (c + colDelta dir)
          else some (false, a) := by
  obtain ⟨n, hn, hpos⟩ := h.exists_nRobotsAt r c
  rw [shootLoop.eq_def, hn, Option.bind_eq_bind, Option.bind_some,
    if_neg fun h => hfree (hpos.1 h)]

/-- What the loop does from a distance on if there is no robot before it. -/
theorem Sound.shootLoop_cases (h : a.Sound) (hdir : IsDirection dir) {steps : Nat}
    (hsteps : d + steps = maxShotLen) (hinside : a.Inside (a.rowAt dir d) (a.colAt dir d))
    (hbefore : ∀ d' < d, ¬ a.HoldsRobot (a.rowAt dir d') (a.colAt dir d')) :
    (∃ d' a', IsLeast (a.Targets dir) d' ∧ a.shootLoop (rowDelta dir) (colDelta dir) steps
        (a.rowAt dir d) (a.colAt dir d) = some (true, a') ∧
        a.DamagedAt (a.rowAt dir d') (a.colAt dir d') a' ∧ a'.Sound) ∨
      a.Targets dir = ∅ ∧ a.shootLoop (rowDelta dir) (colDelta dir) steps
        (a.rowAt dir d) (a.colAt dir d) = some (false, a) := by
  induction steps generalizing d with
  | zero =>
      by_cases hholds : a.HoldsRobot (a.rowAt dir d) (a.colAt dir d)
      · obtain ⟨a', hrun, hdamaged⟩ := h.shootLoop_of_holds hholds dir 0
        exact .inl ⟨d, a', isLeast_targets (by omega) hinside hbefore hholds, hrun, hdamaged⟩
      · refine .inr ⟨targets_eq_empty (d := d) (fun d' hd' => ?_) fun d' hd' hlt => by omega,
          h.shootLoop_of_free hholds dir 0⟩
        rcases Nat.lt_or_eq_of_le hd' with hlt | rfl
        · exact hbefore d' hlt
        · exact hholds
  | succ steps ih =>
      by_cases hholds : a.HoldsRobot (a.rowAt dir d) (a.colAt dir d)
      · obtain ⟨a', hrun, hdamaged⟩ := h.shootLoop_of_holds hholds dir (steps + 1)
        exact .inl ⟨d, a', isLeast_targets (by omega) hinside hbefore hholds, hrun, hdamaged⟩
      · have hbefore' : ∀ d' < d + 1, ¬ a.HoldsRobot (a.rowAt dir d') (a.colAt dir d') := by
          intro d' hd'
          rcases Nat.lt_or_eq_of_le (Nat.le_of_lt_succ hd') with hlt | rfl
          · exact hbefore d' hlt
          · exact hholds
        rw [h.shootLoop_of_free hholds dir (steps + 1), ← rowAt_succ, ← colAt_succ]
        show _ ∨ _ ∧ (if _ then _ else _) = _
        by_cases hnext : a.Inside (a.rowAt dir (d + 1)) (a.colAt dir (d + 1))
        · simp only [if_pos hnext]
          exact ih (by omega) hnext hbefore'
        · refine .inr ⟨targets_eq_empty (d := d) (fun d' hd' => hbefore' d' (Nat.lt_succ_of_le hd'))
            fun d' _ hlt hinside' => hnext (h.inside_of_le hdir hlt hinside'), if_neg hnext⟩

theorem Sound.aged (h : a.Sound) : a.aged.Sound :=
  ⟨h.1, h.2, h.3, h.4, h.5⟩

theorem cellAt_zero (a : RobotArena) (dir : Int) :
    a.rowAt dir 0 = a.mPlayer.mRow ∧ a.colAt dir 0 = a.mPlayer.mCol := by
  simp [rowAt, colAt]

/-- A shot that is no random miss. -/
theorem Sound.shoot_cases (h : a.Sound) (hdir : IsDirection dir) {random : Nat}
    (hrandom : random % 3 ≠ 0) :
    (∃ d a', IsLeast (a.Targets dir) d ∧ a.shoot random dir = some (true, a') ∧
        a.aged.DamagedAt (a.rowAt dir d) (a.colAt dir d) a' ∧ a'.Sound) ∨
      a.Targets dir = ∅ ∧ a.shoot random dir = some (false, a.aged) := by
  obtain ⟨hrow, hcol⟩ := cellAt_zero a dir
  have hrun : a.shoot random dir = a.aged.shootLoop (rowDelta dir) (colDelta dir) maxShotLen
      (a.rowAt dir 0) (a.colAt dir 0) := by
    rw [shoot, if_neg hrandom, if_pos hdir, hrow, hcol]
    rfl
  have hinside : a.Inside (a.rowAt dir 0) (a.colAt dir 0) := by
    rw [hrow, hcol]
    exact h.player_inside
  rw [hrun]
  exact h.aged.shootLoop_cases hdir (Nat.zero_add _) hinside
    fun d' hd' => absurd hd' (Nat.not_lt_zero d')

/-- A shot that is no random miss takes a health point from one robot in the nearest cell with
robots, if there is one in reach, and leaves all other robots as they are. -/
theorem shoot_right (h : a.Sound) (hdir : IsDirection dir) {random : Nat}
    (hrandom : random % 3 ≠ 0) :
    (a.Targets dir = ∅ → a.shoot random dir = some (false, a.aged)) ∧
      ∀ d, IsLeast (a.Targets dir) d → ∃ a', a.shoot random dir = some (true, a') ∧
        a.aged.DamagedAt (a.rowAt dir d) (a.colAt dir d) a' := by
  rcases h.shoot_cases hdir hrandom with ⟨d', a', hleast, hshot, hdamaged, -⟩ | ⟨hempty, hshot⟩
  · refine ⟨fun hempty => ?_, fun d hd => ?_⟩
    · exact absurd hleast.1 (Set.eq_empty_iff_forall_notMem.1 hempty d')
    · obtain rfl := IsLeast.unique hd hleast
      exact ⟨a', hshot, hdamaged⟩
  · exact ⟨fun _ => hshot, fun d hd => absurd hd.1 (Set.eq_empty_iff_forall_notMem.1 hempty d)⟩

/-- One robot stands two steps to the right of the player. -/
def oneRobot : RobotArena where
  mRows := 3
  mCols := 5
  mHistory := ⟨3, 5, fun _ => dot⟩
  mPlayer := ⟨2, 2, 0⟩
  mRobots := List.replicate maxRobots 7
  mNRobots := 1
  objects := fun p => if p = 7 then some ⟨2, 4, 1⟩ else none

theorem sound_oneRobot : oneRobot.Sound where
  length_mRobots := List.length_replicate
  mNRobots_le := by decide
  nodup := List.nodup_singleton 7
  exists_robot := fun p hp => by
    obtain rfl : p = 7 := List.mem_singleton.1 hp
    exact ⟨⟨2, 4, 1⟩, rfl, .inl rfl, by decide⟩
  player_inside := by decide

/-- It is hit. -/
theorem shoot_oneRobot :
    ∃ a', oneRobot.shoot 1 right = some (true, a') ∧ oneRobot.aged.DamagedAt 2 4 a' := by
  have hleast : IsLeast (oneRobot.Targets right) 2 := by
    refine isLeast_targets (by decide) (by decide) (fun d hd => ?_)
      ⟨7, List.mem_singleton_self 7, _, rfl, by decide⟩
    rintro ⟨p, hp, robot, hrobot, -, hcol⟩
    obtain rfl : p = 7 := List.mem_singleton.1 hp
    obtain rfl := Option.some.inj hrobot
    have hcol : (4 : Int) = 2 + d * 1 := hcol
    omega
  exact (shoot_right sound_oneRobot (.inr (.inr (.inr rfl))) (by decide)).2 2 hleast

end Shooting

end RobotArena

end Coursework.Robots
