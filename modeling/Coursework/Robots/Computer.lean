import Coursework.Robots.Danger

/-!
# The turns that the computer chooses

`takeComputerChosenTurn` moves the player to a neighbouring cell if there is less danger than in his
own, and shoots at a robot or stands if not. It never leaves the player in more danger than he would
be in by standing or by any move (`computer_turn_right`), so it does not lose a game that a move
or a stand would not lose.
Vocabulary and scope: `Coursework.Robots.Danger`.
-/

namespace Coursework.Robots

namespace RobotArena

/-- What `takeComputerChosenTurn` makes of a neighbour of the player's cell: the least danger so
far, and the direction. -/
def consider (a : RobotArena) (inside : Prop) [Decidable inside] (r c dir : Int)
    (best : Nat × Int) : Option (Nat × Int) :=
  if inside then do
    let d ← a.computeDanger r c
    some (if d < best.1 then (d, dir) else best)
  else some best

/-- `bestMoveDanger` and `bestMoveDir`. -/
def bestMove (a : RobotArena) (standDanger : Nat) : Option (Nat × Int) := do
  let row : Int := a.mPlayer.mRow
  let col : Int := a.mPlayer.mCol
  let best ← a.consider (row > 1) (row - 1) col up (standDanger, up)
  let best ← a.consider (row < a.mRows) (row + 1) col down best
  let best ← a.consider (col > 1) row (col - 1) left best
  a.consider (col < a.mCols) row (col + 1) right best

/-- The direction in which `takeComputerChosenTurn` moves the player, if it does. -/
def chosenMove (a : RobotArena) : Option (Option Int) := do
  let standDanger ← a.computeDanger a.mPlayer.mRow a.mPlayer.mCol
  if standDanger > 0 then do
    let best ← a.bestMove standDanger
    some (if best.1 < standDanger then some best.2 else none)
  else some none

/-- Whether `takeComputerChosenTurn` sees a robot in a cell. -/
def sees (a : RobotArena) (inside : Prop) [Decidable inside] (r c : Int) : Option Bool :=
  if inside then do
    let n ← a.nRobotsAt r c
    some (n > 0)
  else some false

/-- One round of the search for a robot. -/
def targetAt (a : RobotArena) (k : Int) : Option (Option Int) := do
  let row : Int := a.mPlayer.mRow
  let col : Int := a.mPlayer.mCol
  if ← a.sees (row - k ≥ 1) (row - k) col then some (some up)
  else if ← a.sees (row + k ≤ a.mRows) (row + k) col then some (some down)
  else if ← a.sees (col - k ≥ 1) row (col - k) then some (some left)
  else if ← a.sees (col + k ≤ a.mCols) row (col + k) then some (some right)
  else some none

/-- The rounds of the search that are left, from the distance `k` on. -/
def searchTarget (a : RobotArena) : Nat → Nat → Option (Option Int)
  | 0, _ => some none
  | steps + 1, k => do
      match ← a.targetAt k with
      | some dir => some (some dir)
      | none => a.searchTarget steps (k + 1)

/-- The direction in which `takeComputerChosenTurn` shoots, if it does. -/
def chosenTarget (a : RobotArena) : Option (Option Int) :=
  a.searchTarget (max a.mRows a.mCols - 1) 1

end RobotArena

namespace GameArena

/-- `Player::move` and `Player::stand`. -/
def act (index : Indexing) (a : GameArena) (action : Action) : Option GameArena := do
  let arena ← a.toArena.act index action
  some { a with toRobotArena := { a.toRobotArena with toArena := arena } }

/-- `Player::shoot`, with the result of `rand()`. -/
def shoot (a : GameArena) (random : Nat) (dir : Int) : Option (Bool × GameArena) := do
  let (hit, arena) ← a.toRobotArena.shoot random dir
  some (hit, { a with toRobotArena := arena })

/-- `takeComputerChosenTurn`, with the numbers that are left. -/
def takeComputerChosenTurn (index : Indexing) (a : GameArena) (random : Random) :
    Option (String × GameArena × Random) := do
  match ← a.chosenMove with
  | some dir => do
      let a ← a.act index (.move dir)
      some ("Moved.", a, random)
  | none =>
      match ← a.chosenTarget with
      | some dir => do
          let (hit, a) ← a.shoot (random 0) dir
          some (if hit then "Shot and hit!" else "Shot and missed!", a, random.rest)
      | none => do
          let a ← a.act index .stand
          some ("Stood.", a, random)

end GameArena

/-! ## The robots behind a shot -/

namespace RobotArena

variable {a a' : RobotArena} {r c : Int}

/-- A shot takes a health point from one robot of the cell, or takes the robot away. -/
theorem DamagedAt.robots_perm (h : a.Sound) (hdamaged : a.DamagedAt r c a') :
    ∃ robot rest, robot.IsAt r c ∧ a.robots.Perm (robot :: rest) ∧
      a'.robots.Perm (if robot.mHealth - 1 = 0 then rest
        else { robot with mHealth := robot.mHealth - 1 } :: rest) := by
  obtain ⟨p, hp, robot, hrobot, hat, -, hobjects, hperm⟩ := hdamaged
  have hsplit : a.robots.Perm (robot :: (a.inUse.erase p).filterMap a.objects) := by
    have hinUse := (List.perm_cons_erase hp).filterMap a.objects
    rwa [List.filterMap_cons_some hrobot] at hinUse
  have hrest : (a.inUse.erase p).filterMap a'.objects = (a.inUse.erase p).filterMap a.objects := by
    refine List.filterMap_congr fun q hq => ?_
    rw [hobjects, Function.update_of_ne]
    rintro rfl
    exact h.nodup.not_mem_erase hq
  refine ⟨robot, _, hat, hsplit, ?_⟩
  rw [← hrest, robots]
  split_ifs at hperm hobjects ⊢ with hdead
  · exact hperm.filterMap a'.objects
  · have hinUse := (hperm.trans (List.perm_cons_erase hp)).filterMap a'.objects
    rwa [List.filterMap_cons_some (by rw [hobjects, Function.update_self])] at hinUse

/-- Where a robot moves does not depend on its health. -/
theorem isAt_move_iff (robot : Robot) (health rows cols : Int) (random : Nat) :
    (Robot.move { robot with mHealth := health } rows cols random).IsAt r c ↔
      (robot.move rows cols random).IsAt r c := by
  unfold Robot.move
  dsimp only
  split_ifs <;> rfl

/-- After a shot there is no more danger anywhere. -/
theorem DamagedAt.movesTo_le (h : a.Sound) (hdamaged : a.DamagedAt r c a') (r' c' : Int) :
    a'.movesTo r' c' ≤ a.movesTo r' c' := by
  obtain ⟨robot, rest, -, hbefore, hafter⟩ := hdamaged.robots_perm h
  have harena : a'.toArena = a.toArena := by
    obtain ⟨_, _, _, _, _, harena, _⟩ := hdamaged
    exact harena
  rw [movesTo, movesTo, harena, (hbefore.map _).sum_nat, (hafter.map _).sum_nat, List.map_cons,
    List.sum_cons]
  split
  · exact Nat.le_add_left _ _
  · rw [List.map_cons, List.sum_cons]
    refine Nat.le_of_eq (congrArg (· + _) (List.countP_congr fun dir _ => ?_))
    simp only [decide_eq_true_eq, isAt_move_iff]

/-! ## The choice -/

/-- The cell of the player or one of its neighbours. -/
def Near (a : RobotArena) (r c : Int) : Prop :=
  a.Inside r c ∧ (r - a.mPlayer.mRow).natAbs + (c - a.mPlayer.mCol).natAbs ≤ 1

/-- The cell to which a move in a direction leads. -/
def neighbour (a : RobotArena) (dir : Int) : Int × Int :=
  (a.mPlayer.mRow + rowDelta dir, a.mPlayer.mCol + colDelta dir)

/-- The danger in the cell to which a move in a direction leads. -/
def dangerTo (a : RobotArena) (dir : Int) : Nat :=
  a.movesTo (a.neighbour dir).1 (a.neighbour dir).2

theorem neighbour_eq (a : RobotArena) :
    a.neighbour up = ((a.mPlayer.mRow : Int) - 1, (a.mPlayer.mCol : Int)) ∧
      a.neighbour down = ((a.mPlayer.mRow : Int) + 1, (a.mPlayer.mCol : Int)) ∧
      a.neighbour left = ((a.mPlayer.mRow : Int), (a.mPlayer.mCol : Int) - 1) ∧
      a.neighbour right = ((a.mPlayer.mRow : Int), (a.mPlayer.mCol : Int) + 1) := by
  refine ⟨?_, ?_, ?_, ?_⟩ <;>
    simp [neighbour, rowDelta, colDelta, up, down, left, right, Int.sub_eq_add_neg]

/-- What is known of the best move when some directions have been considered. -/
structure Best (a : RobotArena) (standDanger : Nat) (dirs : List Int) (best : Nat × Int) :
    Prop where
  le_stand : best.1 ≤ standDanger
  le_dirs : ∀ dir ∈ dirs, a.Inside (a.neighbour dir).1 (a.neighbour dir).2 →
    best.1 ≤ a.dangerTo dir
  attained : best.1 < standDanger → best.2 ∈ dirs ∧
    a.Inside (a.neighbour best.2).1 (a.neighbour best.2).2 ∧ a.dangerTo best.2 = best.1

/-- One more direction is considered. -/
theorem Best.consider {standDanger : Nat} {dirs : List Int} {best : Nat × Int} {dir : Int}
    (hbest : a.Best standDanger dirs best) (h : a.Sound) (hcell : a.neighbour dir = (r, c))
    (inside : Prop) [Decidable inside] (hinside : inside ↔ a.Inside r c) :
    ∃ best', a.consider inside r c dir best = some best' ∧
      a.Best standDanger (dirs ++ [dir]) best' := by
  obtain ⟨rfl, rfl⟩ := Prod.mk.inj hcell
  unfold RobotArena.consider
  by_cases hin : inside
  · have hcell := hinside.1 hin
    rw [if_pos hin, h.computeDanger_eq hcell]
    refine ⟨_, rfl, ?_⟩
    change a.Best standDanger (dirs ++ [dir])
      (if a.dangerTo dir < best.1 then (a.dangerTo dir, dir) else best)
    split_ifs with hlt
    · refine ⟨hlt.le.trans hbest.le_stand, fun dir' hdir' hcell' => ?_, fun _ => ?_⟩
      · rcases List.mem_append.1 hdir' with hdir' | hdir'
        · exact hlt.le.trans (hbest.le_dirs dir' hdir' hcell')
        · rw [List.mem_singleton.1 hdir']
      · exact ⟨List.mem_append_right _ (List.mem_singleton_self dir), hcell, rfl⟩
    · refine ⟨hbest.le_stand, fun dir' hdir' hcell' => ?_, fun hstand => ?_⟩
      · rcases List.mem_append.1 hdir' with hdir' | hdir'
        · exact hbest.le_dirs dir' hdir' hcell'
        · rw [List.mem_singleton.1 hdir']
          exact Nat.le_of_not_lt hlt
      · obtain ⟨hmem, hrest⟩ := hbest.attained hstand
        exact ⟨List.mem_append_left _ hmem, hrest⟩
  · rw [if_neg hin]
    refine ⟨best, rfl, hbest.le_stand, fun dir' hdir' hcell' => ?_, fun hstand => ?_⟩
    · rcases List.mem_append.1 hdir' with hdir' | hdir'
      · exact hbest.le_dirs dir' hdir' hcell'
      · rw [List.mem_singleton.1 hdir'] at hcell'
        exact absurd (hinside.2 hcell') hin
    · obtain ⟨hmem, hrest⟩ := hbest.attained hstand
      exact ⟨List.mem_append_left _ hmem, hrest⟩

/-- `takeComputerChosenTurn` considers all four directions. -/
theorem Sound.exists_bestMove (h : a.Sound) (standDanger : Nat) :
    ∃ best, a.bestMove standDanger = some best ∧
      a.Best standDanger [up, down, left, right] best := by
  obtain ⟨hrow, hrow', hcol, hcol'⟩ := h.player_inside
  have hnone : a.Best standDanger [] (standDanger, up) :=
    ⟨Nat.le_refl _, nofun, fun hlt => absurd hlt (Nat.lt_irrefl _)⟩
  obtain ⟨hup, hdown, hleft, hright⟩ := a.neighbour_eq
  obtain ⟨best₁, hrun₁, hbest₁⟩ := hnone.consider h hup
    ((a.mPlayer.mRow : Int) > 1) (by unfold Arena.Inside; omega)
  obtain ⟨best₂, hrun₂, hbest₂⟩ := hbest₁.consider h hdown
    ((a.mPlayer.mRow : Int) < a.mRows) (by unfold Arena.Inside; omega)
  obtain ⟨best₃, hrun₃, hbest₃⟩ := hbest₂.consider h hleft
    ((a.mPlayer.mCol : Int) > 1) (by unfold Arena.Inside; omega)
  obtain ⟨best₄, hrun₄, hbest₄⟩ := hbest₃.consider h hright
    ((a.mPlayer.mCol : Int) < a.mCols) (by unfold Arena.Inside; omega)
  refine ⟨best₄, ?_, hbest₄⟩
  simp only [bestMove, hrun₁, hrun₂, hrun₃, hrun₄, Option.bind_eq_bind, Option.bind_some]

/-- The cells from which the computer chooses. -/
theorem Near.cases (hnear : a.Near r c) :
    (r = a.mPlayer.mRow ∧ c = a.mPlayer.mCol) ∨
      ∃ dir ∈ [up, down, left, right], a.neighbour dir = (r, c) := by
  obtain ⟨-, hdistance⟩ := hnear
  obtain ⟨hup, hdown, hleft, hright⟩ := a.neighbour_eq
  have hcases : r = a.mPlayer.mRow ∧ c = a.mPlayer.mCol ∨
      r = a.mPlayer.mRow - 1 ∧ c = a.mPlayer.mCol ∨ r = a.mPlayer.mRow + 1 ∧ c = a.mPlayer.mCol ∨
      r = a.mPlayer.mRow ∧ c = a.mPlayer.mCol - 1 ∨
      r = a.mPlayer.mRow ∧ c = a.mPlayer.mCol + 1 := by omega
  rcases hcases with h | ⟨rfl, rfl⟩ | ⟨rfl, rfl⟩ | ⟨rfl, rfl⟩ | ⟨rfl, rfl⟩
  · exact .inl h
  · exact .inr ⟨up, by simp, hup⟩
  · exact .inr ⟨down, by simp, hdown⟩
  · exact .inr ⟨left, by simp, hleft⟩
  · exact .inr ⟨right, by simp, hright⟩

/-- Where the player is after the choice there is as little danger as possible. -/
theorem Sound.exists_chosenMove (h : a.Sound) :
    ∃ choice, a.chosenMove = some choice ∧
      (∀ dir, choice = some dir → IsDirection dir ∧
        a.Inside (a.neighbour dir).1 (a.neighbour dir).2 ∧
        ∀ r c, a.Near r c → a.dangerTo dir ≤ a.movesTo r c) ∧
      (choice = none → ∀ r c, a.Near r c →
        a.movesTo a.mPlayer.mRow a.mPlayer.mCol ≤ a.movesTo r c) := by
  have hstand := h.computeDanger_eq h.player_inside
  generalize hdanger : a.movesTo a.mPlayer.mRow a.mPlayer.mCol = standDanger at hstand
  simp only [chosenMove, hstand, Option.bind_eq_bind, Option.bind_some]
  by_cases hpos : standDanger > 0
  · obtain ⟨best, hrun, hbest⟩ := h.exists_bestMove standDanger
    have hleast : ∀ r c, a.Near r c → best.1 ≤ a.movesTo r c := by
      intro r c hnear
      rcases hnear.cases with ⟨rfl, rfl⟩ | ⟨dir, hdir, hcell⟩
      · exact hdanger ▸ hbest.le_stand
      · have hle := hbest.le_dirs dir hdir
        rw [dangerTo, hcell] at hle
        exact hle hnear.1
    rw [if_pos hpos, hrun]
    refine ⟨_, rfl, fun dir hdir => ?_, fun hnone r c hnear => ?_⟩
    · obtain ⟨hlt, hdir⟩ := Option.ite_none_right_eq_some.1 hdir
      obtain rfl := Option.some.inj hdir
      obtain ⟨hmem, hinside, hattained⟩ := hbest.attained hlt
      refine ⟨by simpa [IsDirection] using hmem, hinside, fun r c hnear => ?_⟩
      rw [hattained]
      exact hleast r c hnear
    · have hge : ¬ best.1 < standDanger := by simpa using hnone
      exact (Nat.le_of_not_lt hge).trans (hleast r c hnear)
  · rw [if_neg hpos]
    exact ⟨none, rfl, nofun, fun _ r c _ => by omega⟩

/-- The search for a robot ends, with a direction or without. -/
theorem Sound.exists_chosenTarget (h : a.Sound) :
    ∃ choice, a.chosenTarget = some choice ∧ ∀ dir, choice = some dir → IsDirection dir := by
  have hsees : ∀ (inside : Prop) [Decidable inside] (r c : Int),
      ∃ seen, a.sees inside r c = some seen := by
    intro inside _ r c
    unfold sees
    split
    · exact ⟨_, by rw [h.nRobotsAt_eq]; rfl⟩
    · exact ⟨_, rfl⟩
  have htarget : ∀ k, ∃ choice, a.targetAt k = some choice ∧
      ∀ dir, choice = some dir → IsDirection dir := by
    intro k
    obtain ⟨above, habove⟩ := hsees (a.mPlayer.mRow - k ≥ 1) (a.mPlayer.mRow - k) a.mPlayer.mCol
    obtain ⟨below, hbelow⟩ := hsees (a.mPlayer.mRow + k ≤ a.mRows) (a.mPlayer.mRow + k)
      a.mPlayer.mCol
    obtain ⟨before, hbefore⟩ := hsees (a.mPlayer.mCol - k ≥ 1) a.mPlayer.mRow (a.mPlayer.mCol - k)
    obtain ⟨behind, hbehind⟩ := hsees (a.mPlayer.mCol + k ≤ a.mCols) a.mPlayer.mRow
      (a.mPlayer.mCol + k)
    simp only [targetAt, habove, hbelow, hbefore, hbehind, Option.bind_eq_bind, Option.bind_some]
    cases above <;> cases below <;> cases before <;> cases behind <;>
      exact ⟨_, rfl, fun dir hdir => by cases hdir <;> simp [IsDirection]⟩
  have hsearch : ∀ steps k, ∃ choice, a.searchTarget steps k = some choice ∧
      ∀ dir, choice = some dir → IsDirection dir := by
    intro steps
    induction steps with
    | zero => exact fun k => ⟨none, rfl, nofun⟩
    | succ steps ih =>
        intro k
        obtain ⟨choice, hrun, hdir⟩ := htarget k
        simp only [searchTarget, hrun, Option.bind_eq_bind, Option.bind_some]
        cases choice with
        | some dir => exact ⟨some dir, rfl, hdir⟩
        | none => exact ih (k + 1)
  exact hsearch _ _

/-- A move in a direction leads to the neighbouring cell if there is one. -/
theorem moved_eq (a : RobotArena) {dir : Int} (hdir : IsDirection dir)
    (hinside : a.Inside (a.neighbour dir).1 (a.neighbour dir).2) :
    ((a.mPlayer.moved a.mRows a.mCols dir).mRow : Int) = (a.neighbour dir).1 ∧
      ((a.mPlayer.moved a.mRows a.mCols dir).mCol : Int) = (a.neighbour dir).2 := by
  obtain ⟨hup, hdown, hleft, hright⟩ := a.neighbour_eq
  rcases hdir with rfl | rfl | rfl | rfl
  · rw [hup] at hinside ⊢
    have hlt : 1 < a.mPlayer.mRow := by
      have hge : (a.mPlayer.mRow : Int) - 1 ≥ 1 := hinside.1
      omega
    have hmoved : a.mPlayer.moved a.mRows a.mCols up =
        if 1 < a.mPlayer.mRow then { a.mPlayer with mRow := a.mPlayer.mRow - 1 } else a.mPlayer :=
      rfl
    rw [hmoved, if_pos hlt]
    exact ⟨Int.natCast_sub hlt.le, rfl⟩
  · rw [hdown] at hinside ⊢
    have hlt : a.mPlayer.mRow < a.mRows := by
      have hle : (a.mPlayer.mRow : Int) + 1 ≤ a.mRows := hinside.2.1
      omega
    have hmoved : a.mPlayer.moved a.mRows a.mCols down =
        if a.mPlayer.mRow < a.mRows then { a.mPlayer with mRow := a.mPlayer.mRow + 1 }
        else a.mPlayer := rfl
    rw [hmoved, if_pos hlt]
    exact ⟨rfl, rfl⟩
  · rw [hleft] at hinside ⊢
    have hlt : 1 < a.mPlayer.mCol := by
      have hge : (a.mPlayer.mCol : Int) - 1 ≥ 1 := hinside.2.2.1
      omega
    have hmoved : a.mPlayer.moved a.mRows a.mCols left =
        if 1 < a.mPlayer.mCol then { a.mPlayer with mCol := a.mPlayer.mCol - 1 } else a.mPlayer :=
      rfl
    rw [hmoved, if_pos hlt]
    exact ⟨rfl, Int.natCast_sub hlt.le⟩
  · rw [hright] at hinside ⊢
    have hlt : a.mPlayer.mCol < a.mCols := by
      have hle : (a.mPlayer.mCol : Int) + 1 ≤ a.mCols := hinside.2.2.2
      omega
    have hmoved : a.mPlayer.moved a.mRows a.mCols right =
        if a.mPlayer.mCol < a.mCols then { a.mPlayer with mCol := a.mPlayer.mCol + 1 }
        else a.mPlayer := rfl
    rw [hmoved, if_pos hlt]
    exact ⟨rfl, rfl⟩

end RobotArena

/-! ## The turn -/

namespace GameArena

variable {index : Indexing} {a a' : GameArena} {random : Random}

/-- What holds of a game between two turns. -/
structure Playable (index : Indexing) (a : GameArena) : Prop where
  sound : a.Sound
  fits : index.Fits a.mRows a.mCols
  history : ∃ visits, a.mHistory.Shows index a.mRows a.mCols visits

/-- Moving and standing are possible, and leave all but the player and the history as they are. -/
theorem Playable.exists_act (h : a.Playable index) (action : Action) :
    ∃ a', a.act index action = some a' ∧ a'.Playable index ∧ a'.mDead = a.mDead ∧
      a'.robots = a.robots ∧ a'.mRows = a.mRows ∧ a'.mCols = a.mCols ∧
      a'.mPlayer = a.mPlayer.act a.mRows a.mCols action := by
  obtain ⟨visits, hshows⟩ := h.history
  have hcell : IsCell a.mRows a.mCols a.mPlayer.mRow a.mPlayer.mCol := by
    have hinside := h.sound.player_inside
    unfold IsCell
    unfold Arena.Inside at hinside
    omega
  obtain ⟨b', hact, hshows'⟩ := Arena.exists_act h.fits hcell hshows action
  have hcell' := a.mPlayer.isCell_act hcell action
  refine ⟨{ a with toRobotArena := { a.toRobotArena with
      toArena := ⟨a.mRows, a.mCols, b', a.mPlayer.act a.mRows a.mCols action⟩ } },
    by rw [act, hact]; rfl, ⟨⟨h.sound.1, h.sound.2, h.sound.3, h.sound.4, ?_⟩, h.fits,
    _, hshows'⟩, rfl, rfl, rfl, rfl, rfl⟩
  unfold IsCell at hcell'
  unfold Arena.Inside
  dsimp only
  omega

/-- A shot is possible, and takes a health point from one robot or leaves all robots as they are. -/
theorem Playable.exists_shoot (h : a.Playable index) (random : Nat) {dir : Int}
    (hdir : IsDirection dir) :
    ∃ hit a', a.shoot random dir = some (hit, a') ∧ a'.Playable index ∧ a'.mDead = a.mDead ∧
      a'.toArena = a.aged.toArena ∧
      (hit = false ∧ a'.robots = a.robots ∨ hit = true ∧ ∃ r c, a.aged.DamagedAt r c
        a'.toRobotArena) := by
  have hplayable : ∀ arena : RobotArena, arena.Sound → arena.toArena = a.aged.toArena →
      Playable index { a with toRobotArena := arena } := fun arena hsound harena =>
    ⟨hsound, by rw [harena]; exact h.fits, by rw [harena]; exact h.history⟩
  have hmissed : a.toRobotArena.shoot random dir = some (false, a.aged) →
      ∃ hit a', a.shoot random dir = some (hit, a') ∧ a'.Playable index ∧ a'.mDead = a.mDead ∧
        a'.toArena = a.aged.toArena ∧
        (hit = false ∧ a'.robots = a.robots ∨ hit = true ∧ ∃ r c, a.aged.DamagedAt r c
          a'.toRobotArena) := fun hrun =>
    ⟨false, { a with toRobotArena := a.aged }, by rw [shoot, hrun]; rfl,
      hplayable _ h.sound.aged rfl, rfl, rfl, .inl ⟨rfl, rfl⟩⟩
  by_cases hrandom : random % 3 = 0
  · exact hmissed (by rw [RobotArena.shoot, if_pos hrandom])
  · rcases h.sound.shoot_cases hdir hrandom with ⟨d, arena, -, hrun, hdamaged, hsound⟩ | ⟨-, hrun⟩
    · have harena : arena.toArena = a.aged.toArena := by
        obtain ⟨_, _, _, _, _, harena, _⟩ := hdamaged
        exact harena
      exact ⟨true, { a with toRobotArena := arena }, by rw [shoot, hrun]; rfl,
        hplayable _ hsound harena, rfl, harena, .inr ⟨rfl, _, _, hdamaged⟩⟩
    · exact hmissed hrun

/-- What is left of the robots after a turn with this message. -/
def Reported (a : GameArena) (msg : String) (a' : GameArena) : Prop :=
  a'.robots = a.robots ∧ msg ∈ ["Moved.", "Shot and missed!", "Stood.", "", "Missed!"] ∨
    msg ∈ ["Shot and hit!", "Hit!"] ∧ ∃ r c, a.aged.DamagedAt r c a'.toRobotArena

/-- The turn ends, and the player is in as little danger then as he can be. -/
theorem Playable.exists_turn (h : a.Playable index) (random : Random) :
    ∃ msg a' rest, a.takeComputerChosenTurn index random = some (msg, a', rest) ∧
      a'.Playable index ∧ a'.mDead = a.mDead ∧ a'.mPlayer.mAge = a.mPlayer.mAge + 1 ∧
      a.Reported msg a' ∧ ∀ r c, a.Near r c →
        a'.movesTo a'.mPlayer.mRow a'.mPlayer.mCol ≤ a.movesTo r c := by
  obtain ⟨choice, hmove, hsome, hnone⟩ := h.sound.exists_chosenMove
  simp only [takeComputerChosenTurn, hmove, Option.bind_eq_bind, Option.bind_some]
  cases choice with
  | some dir =>
      obtain ⟨hdir, hinside, hleast⟩ := hsome dir rfl
      obtain ⟨a', hact, hplayable, hdead, hrobots, hrows, hcols, hplayer⟩ :=
        h.exists_act (.move dir)
      obtain ⟨hrow, hcol⟩ := a.moved_eq hdir hinside
      refine ⟨"Moved.", a', random, by simp only [hact, Option.bind_some], hplayable, hdead, ?_,
        .inl ⟨hrobots, by simp⟩, fun r c hnear => ?_⟩
      · rw [hplayer]
        rfl
      · have heq : a'.movesTo a'.mPlayer.mRow a'.mPlayer.mCol = a.dangerTo dir := by
          rw [hplayer, RobotArena.dangerTo, ← hrow, ← hcol, RobotArena.movesTo, hrobots, hrows,
            hcols]
          rfl
        exact heq ▸ hleast r c hnear
  | none =>
      have hstay := hnone rfl
      obtain ⟨target, htarget, hdir⟩ := h.sound.exists_chosenTarget
      simp only [htarget, Option.bind_some]
      cases target with
      | some dir =>
          obtain ⟨hit, a', hshoot, hplayable, hdead, harena, hrobots⟩ :=
            h.exists_shoot (random 0) (hdir dir rfl)
          refine ⟨if hit then "Shot and hit!" else "Shot and missed!", a', random.rest,
            by simp only [hshoot, Option.bind_some], hplayable, hdead, by rw [harena]; rfl, ?_,
            fun r c hnear => ?_⟩
          · rcases hrobots with ⟨rfl, hrobots⟩ | ⟨rfl, hdamaged⟩
            · exact .inl ⟨hrobots, by simp⟩
            · exact .inr ⟨by simp, hdamaged⟩
          · have hle : a'.movesTo a.mPlayer.mRow a.mPlayer.mCol ≤
                a.movesTo a.mPlayer.mRow a.mPlayer.mCol := by
              rcases hrobots with ⟨-, hrobots⟩ | ⟨-, _, _, hdamaged⟩
              · rw [RobotArena.movesTo, hrobots, harena]
                exact Nat.le_refl _
              · exact hdamaged.movesTo_le h.sound.aged _ _
            rw [harena]
            exact hle.trans (hstay r c hnear)
      | none =>
          obtain ⟨a', hact, hplayable, hdead, hrobots, hrows, hcols, hplayer⟩ :=
            h.exists_act .stand
          refine ⟨"Stood.", a', random, by simp only [hact, Option.bind_some], hplayable, hdead,
            by rw [hplayer]; rfl, .inl ⟨hrobots, by simp⟩, fun r c hnear => ?_⟩
          have heq : a'.movesTo a'.mPlayer.mRow a'.mPlayer.mCol =
              a.movesTo a.mPlayer.mRow a.mPlayer.mCol := by
            rw [hplayer, RobotArena.movesTo, hrobots, hrows, hcols]
            rfl
          exact heq ▸ hstay r c hnear

/-- After a turn that the computer chooses, the player is in as little danger as he would be in
after standing or after any move. If he can be out of danger, he survives the moves of the
robots. -/
theorem computer_turn_right (h : a.Playable index) (halive : a.mDead = false) (random : Random) :
    ∃ msg a' rest, a.takeComputerChosenTurn index random = some (msg, a', rest) ∧
      (∀ r c, a.Near r c → ∃ danger danger', a.computeDanger r c = some danger ∧
        a'.computeDanger a'.mPlayer.mRow a'.mPlayer.mCol = some danger' ∧ danger' ≤ danger) ∧
      ((∃ r c, a.Near r c ∧ a.computeDanger r c = some 0) →
        ∀ random, ∃ moved, a'.moveRobots random = some (true, moved)) := by
  obtain ⟨msg, a', rest, hrun, hplayable, hdead, -, -, hleast⟩ := h.exists_turn random
  refine ⟨msg, a', rest, hrun, fun r c hnear => ?_, ?_⟩
  · exact ⟨_, _, h.sound.computeDanger_eq hnear.1,
      hplayable.sound.computeDanger_eq hplayable.sound.player_inside, hleast r c hnear⟩
  · rintro ⟨r, c, hnear, hzero⟩ random
    have hsafe : a'.movesTo a'.mPlayer.mRow a'.mPlayer.mCol = 0 := by
      have hdanger := Option.some.inj ((h.sound.computeDanger_eq hnear.1).symm.trans hzero)
      exact Nat.le_zero.1 (hdanger ▸ hleast r c hnear)
    obtain ⟨moved, hmoves, hmoved, -, hdies⟩ := exists_moveRobots hplayable.sound random
    have hplayer : moved.mPlayer = a'.mPlayer := by rw [hmoved.arena]
    have hlives : moved.mDead = false := by
      rw [← Bool.not_eq_true, hdies, hdead, halive, hplayer, not_or]
      refine ⟨nofun, ?_⟩
      exact (movesTo_eq_zero_iff hplayable.sound).1 hsafe random _ _ hmoves
    exact ⟨moved, by rw [hmoves, hlives]; rfl⟩

/-- Smaller arenas than the largest one have a place for every cell. -/
theorem fits_inRange {nRows nCols : Nat} (hrows : nRows < maxRows) (hcols : nCols < maxCols) :
    inRange.Fits nRows nCols := by
  have hinRange : ∀ {r c}, IsCell nRows nCols r c → inRange r c = some (maxCols * r + c) :=
    fun {r c} h => if_pos ⟨h.1.2.trans_lt hrows, h.2.2.trans_lt hcols⟩
  refine ⟨fun r c h => ?_, fun r c r' c' h h' heq => ?_⟩
  · rw [hinRange h]
    rfl
  · rw [hinRange h, hinRange h', Option.some.injEq] at heq
    exact eq_of_address hcols.le h h' heq

/-- The player stands beside the only robot. -/
def besideRobot : GameArena :=
  { oneRobotGame with mPlayer := ⟨2, 3, 0⟩ }

theorem playable_besideRobot : besideRobot.Playable inRange := by
  have hfits : inRange.Fits 3 5 := fits_inRange (by decide) (by decide)
  have hsound : besideRobot.Sound :=
    { RobotArena.sound_oneRobot with player_inside := by decide }
  refine ⟨hsound, hfits, [], rfl, rfl, fun r c h => ?_⟩
  obtain ⟨place, hplace⟩ := Option.isSome_iff_exists.1 (hfits.inside r c h)
  rw [Before.read, hplace]
  rfl

/-- He is in danger, and survives the turn by leaving his cell. -/
theorem turn_besideRobot : besideRobot.computeDanger 2 3 = some 1 ∧
    ∃ msg a' rest,
      besideRobot.takeComputerChosenTurn inRange (fun _ => 1) = some (msg, a', rest) ∧
        ∀ random, ∃ moved, a'.moveRobots random = some (true, moved) := by
  refine ⟨rfl, ?_⟩
  obtain ⟨msg, a', rest, hrun, -, hsafe⟩ :=
    computer_turn_right playable_besideRobot rfl fun _ => 1
  exact ⟨msg, a', rest, hrun, hsafe ⟨2, 2, ⟨by decide, by decide⟩, by decide⟩⟩

end GameArena

end Coursework.Robots
