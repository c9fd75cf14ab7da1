import Coursework.Robots.Computer
import Mathlib.Algebra.BigOperators.Group.List.Basic
import Mathlib.Algebra.Ring.Int.Defs
import Mathlib.Data.Nat.Cast.Basic

/-!
# The robots game

The constructor `Game::Game` puts a player and robots into an arena, and `Game::play` reads lines
and lets the player and the robots take their turns. `Play` is the state of the loops of `play` in
front of a line. `game_right` is about all games, whatever is typed and whatever `rand()` returns:
no access fails, everything stays inside the arena, the player is dead exactly if a robot is in his
cell, and the robots have lost a health point for every hit that was reported.
Vocabulary and scope: `Coursework.Robots.Computer`. What is printed beside the messages is left out.
-/

namespace Coursework.Robots

/-- `decodeDirection`. -/
def decodeDirection (dir : UInt8) : Int :=
  if dir = 117 then up else if dir = 100 then down else if dir = 108 then left
  else if dir = 114 then right else -1

/-- `'u'`, `'d'`, `'l'` or `'r'`. -/
def isDirectionLetter (c : UInt8) : Bool :=
  c = 117 || c = 100 || c = 108 || c = 114

/-- What `play` makes of a line. -/
inductive Command where
  | stand
  | beep
  | history
  | quit
  | computer
  | move (dir : Int)
  | shoot (dir : Int)

/-- The command in a line. -/
def command : List UInt8 → Command
  | [] => .stand
  | c :: rest =>
      if c = 98 then .history
      else if c = 113 then .quit
      else if c = 99 then .computer
      else if isDirectionLetter c then .move (decodeDirection c)
      else if c = 115 then
        match rest with
        | [] => .beep
        | d :: _ => if isDirectionLetter d then .shoot (decodeDirection d) else .beep
      else .beep

/-- What `play` does with the next line: it is a command, it is skipped or read behind the history,
or `play` has returned, by the command `q` or at the end of its loop. -/
inductive Mode where
  | prompt
  | skip
  | enter
  | left
  | ended
  deriving DecidableEq

/-- A game, with the messages of its turns. -/
structure Play where
  arena : GameArena
  mode : Mode
  random : Random
  log : List String

namespace Play

/-- The condition of the loop of `play`. -/
def check (s : Play) : Play :=
  { s with mode := if s.arena.mDead = false ∧ s.arena.mNRobots > 0 then .prompt else .ended }

/-- The end of a turn. -/
def finish (s : Play) (msg : String) (a : GameArena) (random : Random) : Option Play := do
  let (_, moved) ← a.moveRobots random
  some (check ⟨moved, s.mode, fun k => random (k + a.mNRobots), s.log ++ [msg]⟩)

/-- A round of the loop of `play`. -/
def turn (index : Indexing) (s : Play) : Command → Option Play
  | .stand => do
      let a ← s.arena.act index .stand
      s.finish "" a s.random
  | .beep => some s.check
  | .history => do
      let _ ← s.arena.mHistory.printWhatWasBefore index
      some { s with mode := .skip }
  | .quit => some { s with mode := .left }
  | .computer => do
      let (msg, a, random) ← s.arena.takeComputerChosenTurn index s.random
      s.finish msg a random
  | .move dir => do
      let a ← s.arena.act index (.move dir)
      s.finish "" a s.random
  | .shoot dir => do
      let (hit, a) ← s.arena.shoot (s.random 0) dir
      s.finish (if hit then "Hit!" else "Missed!") a s.random.rest

/-- What `play` does with a line. `cin.ignore` skips 10000 characters at most. -/
def readLine (index : Indexing) (s : Play) (line : List UInt8) : Option Play :=
  match s.mode with
  | .prompt => s.turn index (command line)
  | .skip =>
      some (if line.length < 10000 then { s with mode := .enter }
        else if line.drop 10000 = [] then s.check else s)
  | .enter => some (if line = [] then s.check else { s with mode := .skip })
  | .left | .ended => some s

end Play

/-! ## The constructor -/

/-- The loop of `Game::Game` that adds robots, for a number of rounds; `ptrs` are the results of
`new`. `none` if robots are left then. -/
def populate (ptrs : Nat → RobotPtr) (rows cols rPlayer cPlayer : Nat) :
    Nat → Nat → Random → RobotArena → Option (RobotArena × Random)
  | _, 0, random, a => some (a, random)
  | 0, _ + 1, _, _ => none
  | rounds + 1, nRobots + 1, random, a =>
      let r := 1 + random 0 % rows
      let c := 1 + random 1 % cols
      if r = rPlayer ∧ c = cPlayer then
        populate ptrs rows cols rPlayer cPlayer rounds (nRobots + 1) random.rest.rest a
      else
        populate ptrs rows cols rPlayer cPlayer rounds nRobots random.rest.rest
          (a.addRobot (ptrs a.mNRobots) r c).2

/-- `Game::Game`, for the contents of the arrays before and a number of rounds of its loop. `none`
if the program exits, if it accesses the history outside its array, or if robots are left. -/
def newGame (index : Indexing) (memory : Nat → UInt8) (junk : RobotPtr) (ptrs : Nat → RobotPtr)
    (rows cols nRobots rounds : Nat) (random : Random) : Option Play := do
  if nRobots > maxRobots then none
  else
    let history ← Before.new index memory rows cols
    if rows = 0 ∨ cols = 0 ∨ rows > maxRows ∨ cols > maxCols then none
    else
      let rPlayer := 1 + random 0 % rows
      let cPlayer := 1 + random 1 % cols
      let empty : RobotArena :=
        ⟨⟨rows, cols, history, ⟨rPlayer, cPlayer, 0⟩⟩, List.replicate maxRobots junk, 0,
          fun _ => none⟩
      let (a, random) ←
        populate ptrs rows cols rPlayer cPlayer rounds nRobots random.rest.rest empty
      some ⟨{ a with mDead := false }, .prompt, random, []⟩

/-! ## The health of the robots -/

namespace RobotArena

variable {a a' : RobotArena} {r c : Int}

/-- The health points of all robots. -/
def totalHealth (a : RobotArena) : Int :=
  (a.robots.map Robot.mHealth).sum

/-- All pointers in use are to robots. -/
theorem Sound.length_robots (h : a.Sound) : a.robots.length = a.mNRobots := by
  have hall : ∀ p ∈ a.inUse, (a.objects p).isSome = true := fun p hp => by
    obtain ⟨robot, hrobot, -⟩ := h.exists_robot p hp
    rw [hrobot]
    rfl
  rw [robots, List.length_filterMap_eq_countP, List.countP_eq_length.2 hall, inUse,
    List.length_take, h.length_mRobots, Nat.min_eq_left h.mNRobots_le]

/-- A robot has a health point at least. -/
theorem Sound.pos_of_mem (h : a.Sound) {robot : Robot} (hrobot : robot ∈ a.robots) :
    0 < robot.mHealth := by
  obtain ⟨p, hp, hobject⟩ := List.mem_filterMap.1 hrobot
  obtain ⟨robot', hobject', hhealth, -⟩ := h.exists_robot p hp
  obtain rfl := Option.some.inj (hobject.symm.trans hobject')
  omega

/-- The robots have no health points left if there are no robots. -/
theorem Sound.totalHealth_eq_zero_iff (h : a.Sound) : a.totalHealth = 0 ↔ a.mNRobots = 0 := by
  have hpos : ∀ robots : List Robot, (∀ robot ∈ robots, 0 < robot.mHealth) →
      (robots.length : Int) ≤ (robots.map Robot.mHealth).sum := by
    intro robots hrobots
    induction robots with
    | nil => exact Int.le_refl 0
    | cons robot robots ih =>
        obtain ⟨hfirst, hrest⟩ := List.forall_mem_cons.1 hrobots
        have hle := ih hrest
        rw [List.map_cons, List.sum_cons, List.length_cons]
        omega
  have hle := hpos a.robots fun robot => h.pos_of_mem
  rw [← h.length_robots]
  constructor
  · intro hzero
    rw [totalHealth] at hzero
    omega
  · intro hzero
    rw [totalHealth, List.eq_nil_of_length_eq_zero hzero]
    rfl

/-- A shot takes one health point. -/
theorem DamagedAt.totalHealth_eq (hdamaged : a.DamagedAt r c a') (h : a.Sound) :
    a'.totalHealth + 1 = a.totalHealth := by
  obtain ⟨robot, rest, -, hbefore, hafter⟩ := hdamaged.robots_perm h
  rw [totalHealth, totalHealth, (hbefore.map _).sum_eq, (hafter.map _).sum_eq, List.map_cons,
    List.sum_cons]
  split
  · next hdead => omega
  · rw [List.map_cons, List.sum_cons]
    dsimp only
    omega

end RobotArena

namespace GameArena

variable {a a' : GameArena} {random : Random}

/-- The messages that report a hit. -/
def hits (log : List String) : Nat :=
  log.countP fun msg => msg ∈ ["Shot and hit!", "Hit!"]

/-- The robots lose a health point if a hit is reported. -/
theorem Reported.totalHealth_eq {msg : String} (hreported : a.Reported msg a') (h : a.Sound) :
    a'.totalHealth + hits [msg] = a.totalHealth := by
  rcases hreported with ⟨hrobots, hmsg⟩ | ⟨hmsg, r, c, hdamaged⟩
  · have hnone : hits [msg] = 0 := by
      simp only [List.mem_cons, List.not_mem_nil, or_false] at hmsg
      rcases hmsg with rfl | rfl | rfl | rfl | rfl <;> decide
    rw [hnone, RobotArena.totalHealth, hrobots]
    exact Int.add_zero _
  · have hone : hits [msg] = 1 := by rw [hits, List.countP_singleton, decide_eq_true hmsg]; rfl
    rw [hone]
    exact hdamaged.totalHealth_eq h.aged

/-- Robots that move keep their health. -/
theorem Moved.totalHealth_eq (hmoved : a.Moved random a.inUse a') (h : a.Sound) :
    a'.totalHealth = a.totalHealth := by
  have hinUse : a'.inUse = a.inUse := by
    rw [hmoved.arena]
    rfl
  rw [RobotArena.totalHealth, RobotArena.totalHealth, RobotArena.robots, RobotArena.robots, hinUse,
    List.map_filterMap, List.map_filterMap]
  refine congrArg List.sum (List.filterMap_congr fun p hp => ?_)
  obtain ⟨k, hk⟩ := List.mem_iff_getElem?.1 hp
  obtain ⟨robot, hrobot, -⟩ := h.exists_robot p hp
  rw [hmoved.moved k p robot hk hrobot, hrobot, Option.map_some, Option.map_some,
    RobotArena.mHealth_move]

end GameArena

/-! ## Playing -/

namespace Play

open GameArena

variable {index : Indexing} {s : Play} {health : Int}

/-- What holds in front of every line, for robots that had some health points at the start. -/
structure Going (index : Indexing) (health : Int) (s : Play) : Prop where
  playable : s.arena.Playable index
  dead_iff : s.arena.mDead = true ↔
    s.arena.HoldsRobot s.arena.mPlayer.mRow s.arena.mPlayer.mCol
  ended : s.mode = .ended → s.arena.mDead = true ∨ s.arena.mNRobots = 0
  alive : s.mode ≠ .ended → s.arena.mDead = false ∧ (s.arena.mNRobots = 0 → s.log = [])
  age : s.arena.mPlayer.mAge = s.log.length
  health : s.arena.totalHealth + hits s.log = health

/-- The loop goes on while the player is alive and there are robots. -/
theorem Going.check (h : s.Going index health) : s.check.Going index health := by
  unfold Play.check
  by_cases hgoes : s.arena.mDead = false ∧ s.arena.mNRobots > 0
  · rw [if_pos hgoes]
    exact ⟨h.playable, h.dead_iff, nofun,
      fun _ => ⟨hgoes.1, fun hzero => absurd hzero (Nat.ne_of_gt hgoes.2)⟩, h.age, h.health⟩
  · rw [if_neg hgoes]
    refine ⟨h.playable, h.dead_iff, fun _ => ?_, fun hne => absurd rfl hne, h.age, h.health⟩
    cases hdead : s.arena.mDead with
    | true => exact .inl rfl
    | false => exact .inr (Nat.eq_zero_of_not_pos fun hpos => hgoes ⟨hdead, hpos⟩)

/-- While `play` goes on, the line read is not the end of it. -/
theorem Going.mode (h : s.Going index health) {mode : Mode} (hmode : mode ≠ .ended)
    (halive : s.mode ≠ .ended) : Going index health { s with mode := mode } :=
  ⟨h.playable, h.dead_iff, fun heq => absurd heq hmode, fun _ => h.alive halive, h.age, h.health⟩

/-- The end of a turn. -/
theorem Going.exists_finish (h : s.Going index health) (halive : s.mode ≠ .ended) {msg : String}
    {a : GameArena} (hplayable : a.Playable index) (hdead : a.mDead = s.arena.mDead)
    (hage : a.mPlayer.mAge = s.arena.mPlayer.mAge + 1) (hreported : s.arena.Reported msg a)
    (random : Random) :
    ∃ s', s.finish msg a random = some s' ∧ s'.Going index health := by
  obtain ⟨moved, hrun, hmoved, hsound, hdies⟩ := exists_moveRobots hplayable.sound random
  have hplayer : moved.mPlayer = a.mPlayer := by rw [hmoved.arena]
  have harena : moved.toArena = a.toArena := by rw [hmoved.arena]
  refine ⟨_, by rw [finish, hrun]; rfl, ?_⟩
  have hdead' : moved.mDead = true ↔ moved.HoldsRobot moved.mPlayer.mRow moved.mPlayer.mCol := by
    rw [hdies, hdead, (h.alive halive).1]
    simp
  unfold Play.check
  dsimp only
  have hcommon : ∀ mode, (mode = .ended → moved.mDead = true ∨ moved.mNRobots = 0) →
      (mode ≠ .ended → moved.mDead = false ∧ 0 < moved.mNRobots) →
      Going index health ⟨moved, mode, fun k => random (k + a.mNRobots), s.log ++ [msg]⟩ := by
    intro mode hover hgoes
    refine ⟨⟨hsound, by rw [harena]; exact hplayable.fits, by rw [harena]; exact hplayable.history⟩,
      hdead', hover, fun hne => ?_, ?_, ?_⟩
    · exact ⟨(hgoes hne).1, fun hzero => absurd hzero (Nat.ne_of_gt (hgoes hne).2)⟩
    · show moved.mPlayer.mAge = _
      rw [hplayer, hage, h.age, List.length_append]
      rfl
    · show moved.totalHealth + hits (s.log ++ [msg]) = health
      rw [hmoved.totalHealth_eq hplayable.sound, ← h.health,
        ← hreported.totalHealth_eq h.playable.sound, hits, List.countP_append]
      unfold hits
      push_cast
      omega
  split
  · next hgoes => exact hcommon _ nofun fun _ => hgoes
  · next hends =>
      refine hcommon _ (fun _ => ?_) fun hne => absurd rfl hne
      cases hlives : moved.mDead with
      | true => exact .inl rfl
      | false => exact .inr (Nat.eq_zero_of_not_pos fun hpos => hends ⟨hlives, hpos⟩)

/-- A round of the loop of `play`. -/
theorem Going.exists_turn (h : s.Going index health) (halive : s.mode ≠ .ended) (cmd : Command)
    (hcmd : ∀ dir, cmd = .shoot dir → IsDirection dir) :
    ∃ s', s.turn index cmd = some s' ∧ s'.Going index health := by
  have hact : ∀ action : Action, ∃ s',
      (do let a ← s.arena.act index action; s.finish "" a s.random) = some s' ∧
        s'.Going index health := by
    intro action
    obtain ⟨a, hrun, hplayable, hdead, hrobots, -, -, hplayer⟩ := h.playable.exists_act action
    rw [hrun]
    refine h.exists_finish halive hplayable hdead ?_ (.inl ⟨hrobots, by simp⟩) s.random
    rw [hplayer]
    cases action <;> rfl
  cases cmd with
  | stand => exact hact .stand
  | move dir => exact hact (.move dir)
  | beep => exact ⟨_, rfl, h.check⟩
  | quit => exact ⟨_, rfl, h.mode nofun halive⟩
  | history =>
      obtain ⟨visits, hshows⟩ := h.playable.history
      exact ⟨{ s with mode := .skip }, by rw [turn, hshows.print]; rfl, h.mode nofun halive⟩
  | computer =>
      obtain ⟨msg, a, random, hrun, hplayable, hdead, hage, hreported, -⟩ :=
        h.playable.exists_turn s.random
      rw [turn, hrun]
      exact h.exists_finish halive hplayable hdead hage hreported random
  | shoot dir =>
      obtain ⟨hit, a, hrun, hplayable, hdead, harena, hrobots⟩ :=
        h.playable.exists_shoot (s.random 0) (hcmd dir rfl)
      rw [turn, hrun]
      refine h.exists_finish halive hplayable hdead (by rw [harena]; rfl) ?_ _
      rcases hrobots with ⟨rfl, hrobots⟩ | ⟨rfl, hdamaged⟩
      · exact .inl ⟨hrobots, by simp⟩
      · exact .inr ⟨by simp, hdamaged⟩

/-- A shot in a line has a direction. -/
theorem isDirection_of_command {line : List UInt8} {dir : Int} (h : command line = .shoot dir) :
    IsDirection dir := by
  have hletter : ∀ {d : UInt8}, isDirectionLetter d = true → IsDirection (decodeDirection d) := by
    intro d hd
    simp only [isDirectionLetter, Bool.or_eq_true, decide_eq_true_eq] at hd
    rcases hd with ((rfl | rfl) | rfl) | rfl <;> decide
  cases line with
  | nil => cases h
  | cons c rest =>
      simp only [command] at h
      split_ifs at h
      cases rest with
      | nil => cases h
      | cons d _ =>
          dsimp only at h
          split_ifs at h with hd
          cases h
          exact hletter hd

/-- Every line is read. -/
theorem Going.exists_readLine (h : s.Going index health) (line : List UInt8) :
    ∃ s', s.readLine index line = some s' ∧ s'.Going index health := by
  unfold readLine
  cases hmode : s.mode with
  | prompt =>
      exact h.exists_turn (by rw [hmode]; nofun) _ fun dir => isDirection_of_command
  | skip =>
      have halive : s.mode ≠ .ended := by rw [hmode]; nofun
      refine ⟨_, rfl, ?_⟩
      split_ifs
      · exact h.mode nofun halive
      · exact h.check
      · exact h
  | enter =>
      have halive : s.mode ≠ .ended := by rw [hmode]; nofun
      refine ⟨_, rfl, ?_⟩
      split_ifs
      · exact h.check
      · exact h.mode nofun halive
  | left | ended => exact ⟨s, rfl, h⟩

/-- All lines are read. -/
theorem Going.exists_foldlM (h : s.Going index health) (lines : List (List UInt8)) :
    ∃ s', lines.foldlM (readLine index) s = some s' ∧ s'.Going index health := by
  induction lines generalizing s with
  | nil => exact ⟨s, rfl, h⟩
  | cons line lines ih =>
      obtain ⟨middle, hline, hmiddle⟩ := h.exists_readLine line
      obtain ⟨s', hrest, h'⟩ := ih hmiddle
      exact ⟨s', by rw [List.foldlM_cons, hline]; exact hrest, h'⟩

end Play

/-! ## Whole games -/

section Populate

variable {ptrs : Nat → RobotPtr} {rows cols rPlayer cPlayer : Nat}

/-- What holds of the arena while robots are added. -/
structure Fresh (ptrs : Nat → RobotPtr) (rPlayer cPlayer : Nat) (a : RobotArena) : Prop where
  sound : a.Sound
  unused : ∀ k ≥ a.mNRobots, a.objects (ptrs k) = none
  robots : ∀ robot ∈ a.robots, robot.mHealth = initialRobotHealth ∧ ¬ robot.IsAt rPlayer cPlayer

/-- One more robot in a cell of the arena that is not the player's. -/
theorem Fresh.addRobot {a : RobotArena} (h : Fresh ptrs rPlayer cPlayer a)
    (hptrs : Function.Injective ptrs) (hfull : a.mNRobots < maxRobots) {r c : Nat}
    (hinside : a.Inside r c) (hplayer : ¬ (r = rPlayer ∧ c = cPlayer)) :
    Fresh ptrs rPlayer cPlayer (a.addRobot (ptrs a.mNRobots) r c).2 ∧
      (a.addRobot (ptrs a.mNRobots) r c).2.mNRobots = a.mNRobots + 1 ∧
      (a.addRobot (ptrs a.mNRobots) r c).2.toArena = a.toArena := by
  have hadd : (a.addRobot (ptrs a.mNRobots) r c).2 = { a with
      mRobots := a.mRobots.set a.mNRobots (ptrs a.mNRobots)
      mNRobots := a.mNRobots + 1
      objects :=
        Function.update a.objects (ptrs a.mNRobots) (some ⟨r, c, initialRobotHealth⟩) } := by
    rw [RobotArena.addRobot, if_neg hfull.ne]
  have hnew := h.unused a.mNRobots (Nat.le_refl _)
  have hinUse := RobotArena.inUse_addRobot hfull.ne (h.sound.length_mRobots ▸ hfull)
    (ptrs a.mNRobots) r c
  refine ⟨⟨h.sound.addRobot hnew hinside, fun k hk => ?_, fun robot hrobot => ?_⟩,
    by rw [hadd], by rw [hadd]⟩
  · rw [hadd] at hk ⊢
    have hlt : a.mNRobots < k := hk
    show Function.update a.objects _ _ _ = none
    rw [Function.update_of_ne fun heq => hlt.ne' (hptrs heq)]
    exact h.unused k hlt.le
  · obtain ⟨p, hp, hobject⟩ := List.mem_filterMap.1 hrobot
    rw [hinUse, List.mem_append, List.mem_singleton] at hp
    rw [hadd] at hobject
    have hobject : Function.update a.objects (ptrs a.mNRobots)
      (some ⟨r, c, initialRobotHealth⟩) p = some robot := hobject
    rcases hp with hp | rfl
    · rw [Function.update_of_ne] at hobject
      · exact h.robots robot (List.mem_filterMap.2 ⟨p, hp, hobject⟩)
      · rintro rfl
        obtain ⟨_, hrobot', -⟩ := h.sound.exists_robot _ hp
        rw [hnew] at hrobot'
        cases hrobot'
    · rw [Function.update_self] at hobject
      cases hobject
      exact ⟨rfl, fun hat => hplayer ⟨Int.natCast_inj.1 hat.1, Int.natCast_inj.1 hat.2⟩⟩

/-- The loop of `Game::Game`. -/
theorem Fresh.populate {a : RobotArena} (h : Fresh ptrs rPlayer cPlayer a)
    (hptrs : Function.Injective ptrs) (hrows : a.mRows = rows) (hcols : a.mCols = cols)
    (hpos : 0 < rows ∧ 0 < cols) {rounds nRobots : Nat} (hfull : a.mNRobots + nRobots ≤ maxRobots)
    {random random' : Random} {a' : RobotArena}
    (hrun : Robots.populate ptrs rows cols rPlayer cPlayer rounds nRobots random a =
      some (a', random')) :
    Fresh ptrs rPlayer cPlayer a' ∧ a'.mNRobots = a.mNRobots + nRobots ∧
      a'.toArena = a.toArena := by
  induction rounds generalizing a nRobots random with
  | zero =>
      cases nRobots with
      | zero =>
          cases hrun
          exact ⟨h, rfl, rfl⟩
      | succ nRobots => cases hrun
  | succ rounds ih =>
      cases nRobots with
      | zero =>
          cases hrun
          exact ⟨h, rfl, rfl⟩
      | succ nRobots =>
          rw [Robots.populate] at hrun
          split_ifs at hrun with hplayer
          · exact ih h hrows hcols hfull hrun
          · have hr := Nat.mod_lt (random 0) hpos.1
            have hc := Nat.mod_lt (random 1) hpos.2
            have hinside : a.Inside (1 + random 0 % rows : Nat) (1 + random 1 % cols : Nat) := by
              unfold Arena.Inside
              rw [hrows, hcols]
              omega
            obtain ⟨hfresh, hcount, harena⟩ := h.addRobot hptrs (by omega) hinside hplayer
            obtain ⟨hfresh', hcount', harena'⟩ := ih hfresh (by rw [harena]; exact hrows)
              (by rw [harena]; exact hcols) (by omega) hrun
            exact ⟨hfresh', by omega, harena'.trans harena⟩

end Populate

variable {index : Indexing} {memory : Nat → UInt8} {junk : RobotPtr} {ptrs : Nat → RobotPtr}
  {rows cols nRobots rounds : Nat} {random : Random} {start : Play}

/-- The constructor leaves the player and the robots in different cells, and the robots unhurt. -/
theorem going_of_newGame (hptrs : Function.Injective ptrs) (hfits : index.Fits rows cols)
    (hnew : newGame index memory junk ptrs rows cols nRobots rounds random = some start) :
    start.Going index (2 * nRobots) := by
  obtain ⟨history, hhistory, hshows⟩ := Before.exists_new hfits memory
  simp only [newGame, hhistory, Option.bind_eq_bind, Option.bind_some] at hnew
  split_ifs at hnew with htoo hsize
  obtain ⟨hrows, hcols⟩ : 0 < rows ∧ 0 < cols := by omega
  obtain ⟨⟨a, random'⟩, hpopulate, heq⟩ := Option.bind_eq_some_iff.1 hnew
  cases heq
  have hr := Nat.mod_lt (random 0) hrows
  have hc := Nat.mod_lt (random 1) hcols
  have hempty : Fresh ptrs (1 + random 0 % rows) (1 + random 1 % cols)
      ⟨⟨rows, cols, history, ⟨1 + random 0 % rows, 1 + random 1 % cols, 0⟩⟩,
        List.replicate maxRobots junk, 0, fun _ => none⟩ := by
    refine ⟨⟨List.length_replicate, Nat.zero_le _, List.nodup_nil, fun p hp => ?_, ?_⟩,
      fun _ _ => rfl, fun robot hrobot => ?_⟩
    · cases hp
    · unfold Arena.Inside
      dsimp only
      omega
    · cases hrobot
  obtain ⟨hfresh, hcount, harena⟩ := hempty.populate hptrs rfl rfl ⟨hrows, hcols⟩
    (by dsimp only; omega) hpopulate
  have hcount : a.mNRobots = nRobots := hcount.trans (Nat.zero_add _)
  have hplayer : a.mPlayer = ⟨1 + random 0 % rows, 1 + random 1 % cols, 0⟩ := by rw [harena]
  refine ⟨⟨hfresh.sound, by rw [harena]; exact hfits, [], by rw [harena]; exact hshows⟩, ?_, nofun,
    fun _ => ⟨rfl, fun _ => rfl⟩, by rw [hplayer]; rfl, ?_⟩
  · refine iff_of_false nofun ?_
    rintro ⟨p, hp, robot, hrobot, hat⟩
    rw [hplayer] at hat
    exact (hfresh.robots robot (List.mem_filterMap.2 ⟨p, hp, hrobot⟩)).2 hat
  · have hhealth : a.totalHealth = 2 * a.robots.length := by
      have hall : a.robots.map Robot.mHealth = List.replicate a.robots.length 2 :=
        List.eq_replicate_iff.2 ⟨List.length_map _, fun health hmem => by
          obtain ⟨robot, hrobot, rfl⟩ := List.mem_map.1 hmem
          exact (hfresh.robots robot hrobot).1⟩
      rw [RobotArena.totalHealth, hall, List.sum_replicate, nsmul_eq_mul, mul_comm]
    show a.totalHealth + 0 = _
    rw [hhealth, hfresh.sound.length_robots, hcount, Int.add_zero]

/-- Whatever lines are typed and whatever `rand()` returns, no access fails (those of `display`,
which prints the arena, are not modelled), player and robots stay inside the arena, the player is
dead if and only if a robot is in his cell, he is as many turns old as there were, the robots have
lost as many health points as hits were reported, and `play` comes to its end if and only if the
player is dead or all robots are gone, which takes two hits for each. -/
theorem game_right (hptrs : Function.Injective ptrs) (hfits : index.Fits rows cols)
    (hnew : newGame index memory junk ptrs rows cols nRobots rounds random = some start)
    (lines : List (List UInt8)) :
    ∃ s, lines.foldlM (Play.readLine index) start = some s ∧ s.arena.Sound ∧
      (s.arena.mDead = true ↔
        s.arena.HoldsRobot s.arena.mPlayer.mRow s.arena.mPlayer.mCol) ∧
      s.arena.mPlayer.mAge = s.log.length ∧
      (s.arena.robots.map Robot.mHealth).sum = 2 * nRobots - GameArena.hits s.log ∧
      (s.arena.mNRobots = 0 ↔ GameArena.hits s.log = 2 * nRobots) ∧
      (s.log ≠ [] → (s.mode = .ended ↔ s.arena.mDead = true ∨ s.arena.mNRobots = 0)) := by
  obtain ⟨s, hrun, hgoing⟩ := (going_of_newGame hptrs hfits hnew).exists_foldlM lines
  have hhealth := hgoing.health
  refine ⟨s, hrun, hgoing.playable.sound, hgoing.dead_iff, hgoing.age, ?_, ?_, fun hlog => ?_⟩
  · show s.arena.totalHealth = _
    omega
  · rw [← hgoing.playable.sound.totalHealth_eq_zero_iff]
    omega
  · refine ⟨hgoing.ended, fun hends => by_contra fun hne => ?_⟩
    obtain ⟨halive, hnone⟩ := hgoing.alive hne
    rcases hends with hdead | hzero
    · rw [halive] at hdead
      cases hdead
    · exact hlog (hnone hzero)

/-- The arena of `main` with its two robots. -/
theorem small_game : ∃ start,
    newGame inRange (fun _ => 0) 0 id 3 3 2 2 id = some start ∧
      ∃ s, [[99], [], [115, 108], [98]].foldlM (Play.readLine inRange) start = some s ∧
        (s.arena.mNRobots = 0 ↔ GameArena.hits s.log = 4) := by
  obtain ⟨start, hnew⟩ : ∃ start, newGame inRange (fun _ => 0) 0 id 3 3 2 2 id = some start :=
    ⟨_, rfl⟩
  obtain ⟨s, hrun, -, -, -, -, hgone, -⟩ := game_right Function.injective_id
    (GameArena.fits_inRange (by decide) (by decide)) hnew [[99], [], [115, 108], [98]]
  exact ⟨start, hnew, s, hrun, hgone⟩

end Coursework.Robots
