import Coursework.OilField.Actors

/-!
# The game

The player's `doSomething`, and `init` and `move` of `StudentWorld.cpp`. What the player does in a
tick, and what `rand` returns in it, is given with the tick. `init` is given what the memory of
members holds that their constructors do not set. Runs are sequences of calls of `move`.
Vocabulary and scope: `Coursework.OilField.World`.
-/

namespace Coursework.OilField

/-! ## The player -/

/-- The keys that `getKey` returns. -/
inductive Key where
  | escape | space | left | right | up | down | tab | sonar | other
  deriving DecidableEq

/-- The constructor `TunnelMan`. -/
def TunnelMan.new : TunnelMan where
  x := 30
  y := 60
  direction := .right
  state := .alive
  isDead := false
  hitPoints := 10
  nWaterSquirts := 500
  nSonarKits := 1
  nGoldenNuggets := 0

/-- The constructor `WaterSquirt`. -/
def WaterSquirt.new (x y : Int) (direction : Direction) : Actor :=
  let a := Actor.new x y direction (.waterSquirt 4)
  if x ≥ 64 ∨ x < 0 ∨ y ≥ 64 ∨ y < 0 then a.setState .dead else a

/-- The constructor `GoldenNugget` for `"Player"`. -/
def GoldenNugget.dropped (x y : Int) : Actor :=
  (Actor.new x y .right (.goldenNugget true 100)).setState .temporary

/-- The square where a squirt of the player starts. -/
def TunnelMan.nozzle (t : TunnelMan) : Int × Int :=
  match t.direction with
  | .right => (t.x + 4, t.y)
  | .left => (t.x - 4, t.y)
  | .up => (t.x, t.y + 4)
  | .down => (t.x, t.y - 4)

namespace StudentWorld

/-- `m_actors.push_back`. -/
def push (w : StudentWorld) (a : Actor) : StudentWorld :=
  { w with actors := w.actors ++ [a] }

/-- The player's members are changed. -/
def setTunnelMan (w : StudentWorld) (t : TunnelMan) : StudentWorld :=
  { w with tunnelMan := t }

/-- `unveil`. -/
def unveil (w : StudentWorld) : StudentWorld :=
  { w with
    actors := w.actors.map fun a =>
      if w.nearPlayer 12 a.x a.y then { a with isVisible := true } else a }

end StudentWorld

namespace TunnelMan

variable (w : StudentWorld)

/-- An arrow key. -/
def walk (direction : Direction) : StudentWorld :=
  let t := w.tunnelMan
  let next := direction.ahead t.x t.y
  if t.direction ≠ direction then w.setTunnelMan { t with direction := direction }
  else if direction.atBoundary t.x t.y ∨ w.blocked next.1 next.2 = true then w
  else w.setTunnelMan { t with x := next.1, y := next.2 }

/-- The space key. -/
def squirt : StudentWorld :=
  let t := w.tunnelMan
  if t.nWaterSquirts = 0 then w
  else
    (w.setTunnelMan { t with nWaterSquirts := t.nWaterSquirts - 1 }).push
      (WaterSquirt.new t.nozzle.1 t.nozzle.2 t.direction)

/-- The tab key. -/
def dropNugget : StudentWorld :=
  let t := w.tunnelMan
  if t.nGoldenNuggets > 0 then
    (w.setTunnelMan { t with nGoldenNuggets := t.nGoldenNuggets - 1 }).push
      (GoldenNugget.dropped t.x t.y)
  else w

/-- The key for a sonar kit. -/
def useSonar : StudentWorld :=
  let t := w.tunnelMan
  if t.nSonarKits > 0 then
    (w.setTunnelMan { t with nSonarKits := t.nSonarKits - 1 }).unveil
  else w

/-- `TunnelMan::doSomething`. -/
def doSomething (key : Option Key) : StudentWorld :=
  if w.tunnelMan.isDead then w
  else
    let w := w.digEarth w.tunnelMan.x w.tunnelMan.y
    match key with
    | some .escape => w.setTunnelMan { w.tunnelMan with isDead := true }
    | some .space => squirt w
    | some .left => walk w .left
    | some .right => walk w .right
    | some .up => walk w .up
    | some .down => walk w .down
    | some .tab => dropNugget w
    | some .sonar => useSonar w
    | some .other => w
    | none => w

end TunnelMan

/-! ## The start of a level -/

/-- The values that `init` and `move` return. -/
inductive Status where
  | playerDied | continueGame | finishedLevel
  deriving DecidableEq

/-- `B` of `init`. -/
def boulderCount (level : Nat) : Nat :=
  min (level / 2 + 2) 9

/-- `G` of `init`. -/
def nuggetCount (level : Nat) : Nat :=
  (max ((5 - (level : Int)).tdiv 2) 2).toNat

/-- `L` of `init`. -/
def barrelCount (level : Nat) : Nat :=
  min (2 + level) 21

/-- `NtotalActors`. -/
def totalActors (level : Nat) : Nat :=
  boulderCount level + nuggetCount level + barrelCount level

/-- The constructor `Barrel`. -/
def Barrel.new (x y : Int) : Actor :=
  { Actor.new x y .right .barrel with isVisible := false }

/-- The constructor `Boulder`, with what `m_waitClock` holds. -/
def Boulder.new (x y waitClock : Int) : Actor :=
  (Actor.new x y .right (.boulder waitClock)).setState .stable

/-- The constructor `GoldenNugget` for `"World"`, with what `m_waitClock` holds. -/
def GoldenNugget.new (x y waitClock : Int) : Actor :=
  { Actor.new x y .right (.goldenNugget false waitClock) with
    isVisible := false
    state := .permanent }

/-- The constructor `RegularProtestor`, with what `rand` returns and `m_shoutClock` holds. -/
def RegularProtestor.new (level draw : Nat) (shoutClock : Int) : Actor :=
  (Actor.new 60 60 .left (.regularProtestor
    { isDead := false
      hitPoints := 5
      exitPath := []
      numSquaresToMoveInCurrentDirection := draw % 52 + 8
      ticksToWaitBetweenMoves := max 0 (3 - (level / 4 : Nat))
      shoutClock := shoutClock })).setState .searching

/-- The oil field with its central tunnel. -/
def fullField (x y : Int) : Bool :=
  decide (0 ≤ x ∧ x < 63 ∧ 0 ≤ y ∧ y < 60) && !decide (30 ≤ x ∧ x < 34 ∧ 4 ≤ y)

namespace StudentWorld

/-- A position that `init` does not accept. -/
def invalidPosition (w : StudentWorld) (x y : Int) : Bool :=
  w.actors.any (fun a => within 6 x y a.x a.y) || decide (26 ≤ x ∧ x < 34)

/-- The loop of `init` that looks for a position, with the numbers that are left. -/
def findPosition (w : StudentWorld) (high : Bool) : List Nat → Option ((Int × Int) × List Nat)
  | x :: y :: draws =>
      let xCoord : Int := x % 60
      let yCoord : Int := if high then y % 36 + 20 else y % 56
      if w.invalidPosition xCoord yCoord then findPosition w high draws
      else some ((xCoord, yCoord), draws)
  | _ => none

/-- The actor number `i` of a level. -/
def addActor (w : StudentWorld) (memory : Nat → Int) (i : Nat) (x y : Int) : StudentWorld :=
  if i < totalActors w.level - (nuggetCount w.level + barrelCount w.level) then
    (w.push (Boulder.new x y (memory i))).digEarth x y
  else if i < totalActors w.level - nuggetCount w.level then w.push (Barrel.new x y)
  else w.push (GoldenNugget.new x y (memory i))

/-- The first `n` rounds of the loop of `init` over the actors of a level. -/
def addActors (memory : Nat → Int) : Nat → StudentWorld → Option StudentWorld
  | 0, w => some w
  | n + 1, w => do
      let w ← addActors memory n w
      let ((x, y), draws) ←
        w.findPosition (decide (n < totalActors w.level - boulderCount w.level)) w.draws
      some (addActor { w with draws := draws } memory n x y)

/-- `init`. -/
def init (w : StudentWorld) (memory : Nat → Int) : Option (Status × StudentWorld) :=
  if w.lives ≤ 0 then some (.playerDied, w)
  else do
    let w ← addActors memory (totalActors w.level)
      { w with
        tunnelMan := .new
        ground := fullField
        barrelsLeft := barrelCount w.level }
    let (draw, w) ← w.rand
    some (.continueGame,
      w.push (RegularProtestor.new w.level draw (memory (totalActors w.level))))

end StudentWorld

/-! ## A tick -/

/-- The constructor `WaterRefill`. -/
def WaterRefill.new (level : Nat) (x y : Int) : Actor :=
  (Actor.new x y .right (.waterRefill (max 100 (300 - 10 * level)))).setState .temporary

/-- The constructor `SonarKit`. -/
def SonarKit.new (level : Nat) : Actor :=
  (Actor.new 0 60 .right (.sonarKit (max 100 (300 - 10 * level)))).setState .temporary

/-- The vector and the iterator of the loop of `move` that removes dead actors, and what was
deleted so far. -/
structure Removal where
  actors : List Actor
  actorItr : Int
  deleted : List Actor

/-- A round of the loop that removes dead actors. -/
def Removal.step (r : Removal) : Removal :=
  match r.actors[r.actorItr.toNat]? with
  | none => r
  | some a =>
      if a.state = .dead then
        { actors := r.actors.eraseIdx r.actorItr.toNat
          actorItr := r.actorItr - 1 + 1
          deleted := r.deleted ++ [a] }
      else { r with actorItr := r.actorItr + 1 }

/-- The loop that removes dead actors, with a bound on its rounds. -/
def Removal.run : Nat → Removal → Option Removal
  | 0, r => if r.actorItr = r.actors.length then some r else none
  | rounds + 1, r => if r.actorItr = r.actors.length then some r else run rounds r.step

/-- What a tick is given: a key, the numbers `rand` returns, and reads outside `ground`. -/
structure Tick where
  key : Option Key
  draws : List Nat
  stray : Int → Int → Bool

namespace StudentWorld

/-- The loop of `addGoodies` that looks for a place for a water refill, in at most `n` rounds. -/
def addRefill : Nat → StudentWorld → Option StudentWorld
  | 0, w => some w
  | n + 1, w => do
      let (x, w) ← w.rand
      let (y, w) ← w.rand
      let xCoord : Int := x % 59
      let yCoord : Int := y % 56
      if (intRange xCoord (xCoord + 5)).any fun i =>
          (intRange yCoord (yCoord + 5)).any fun k => w.checkEarth i k then
        addRefill n w
      else some (w.push (WaterRefill.new w.level xCoord yCoord))

/-- The goodie that `addGoodies` adds. -/
def addGoodie (w : StudentWorld) : Option StudentWorld := do
  let (goodieProbB, w) ← w.rand
  if goodieProbB % 4 = 1 then some (w.push (SonarKit.new w.level)) else addRefill 4 w

/-- `addGoodies`. -/
def addGoodies (w : StudentWorld) : Option StudentWorld := do
  let (goodieProbA, w) ← w.rand
  if goodieProbA % (w.level * 10 + 300) = 1 then w.addGoodie else some w

/-- The loop of `move` that removes dead actors. -/
def removeDead (w : StudentWorld) : Option StudentWorld := do
  let r ← Removal.run w.actors.length ⟨w.actors, 0, []⟩
  some { w with actors := r.actors }

/-- A round of the loop of `move` that asks the actors. -/
def askActor (w : StudentWorld) (n : Nat) : Option StudentWorld :=
  match w.actors[n]? with
  | none => some w
  | some a => if a.state = .dead then some w else a.doSomething w n

/-- The first `n` rounds of the loop of `move` that asks the actors. -/
def askActors : Nat → StudentWorld → Option StudentWorld
  | 0, w => some w
  | n + 1, w => do
      let w ← askActors n w
      w.askActor n

/-- The player's turn in a tick. -/
def playerTurn (w : StudentWorld) (tick : Tick) : StudentWorld :=
  TunnelMan.doSomething { w with draws := tick.draws, stray := tick.stray } tick.key

/-- The part of `move` after the player's turn. -/
def actorsTurn (w : StudentWorld) : Option StudentWorld := do
  let w ← askActors w.actors.length w
  let w ← w.removeDead
  w.addGoodies

/-- `move`. -/
def move (w : StudentWorld) (tick : Tick) : Option (Status × StudentWorld) :=
  if w.tunnelMan.state = .dead then some (.playerDied, { w with lives := w.lives - 1 })
  else if (w.playerTurn tick).barrelsLeft = 0 then some (.finishedLevel, w.playerTurn tick)
  else do
    let w ← (w.playerTurn tick).actorsTurn
    some (.continueGame, w)

/-! ## Runs -/

/-- A world in which `init` has started a level. -/
def Started (w : StudentWorld) : Prop :=
  ∃ before memory, before.actors = [] ∧ init before memory = some (.continueGame, w)

/-- Sequences of calls of `move`, each of which meets a condition. -/
inductive Run (ok : StudentWorld → Tick → Prop) (start : StudentWorld) : StudentWorld → Prop
  | start : Run ok start start
  | tick {w w' : StudentWorld} {tick : Tick} {status : Status} :
      Run ok start w → ok w tick → w.move tick = some (status, w') → Run ok start w'

/-- The worlds that calls of `move` lead to. -/
def Reachable (w : StudentWorld) : Prop :=
  ∃ start, Started start ∧ Run (fun _ _ => True) start w

/-- The world in a tick when the first `n` actors have been asked. -/
structure Asked (w : StudentWorld) (tick : Tick) (n : Nat) (w' : StudentWorld) : Prop where
  player : w.tunnelMan.state ≠ .dead
  barrels : (w.playerTurn tick).barrelsLeft ≠ 0
  asked : askActors n (w.playerTurn tick) = some w'

/-- The worlds in a tick between its parts. -/
inductive During (w : StudentWorld) (tick : Tick) : StudentWorld → Prop
  | player : w.tunnelMan.state ≠ .dead → During w tick (w.playerTurn tick)
  | asked {w' : StudentWorld} (n : Nat) : Asked w tick n w' → During w tick w'
  | removed {w' w'' : StudentWorld} : Asked w tick (w.playerTurn tick).actors.length w' →
      w'.removeDead = some w'' → During w tick w''

/-- Calls of `move`, one after another, each of which passes a check. -/
def play (check : StudentWorld → Tick → Bool) : List Tick → StudentWorld → Option StudentWorld
  | [], w => some w
  | tick :: ticks, w =>
      if check w tick then do
        let (_, w) ← w.move tick
        play check ticks w
      else none

/-- Calls that pass a check are a run. -/
theorem run_of_play {check : StudentWorld → Tick → Bool} {ok : StudentWorld → Tick → Prop}
    (hcheck : ∀ w tick, check w tick = true → ok w tick) {ticks : List Tick}
    {start w w' : StudentWorld} (h : play check ticks w = some w') (hrun : Run ok start w) :
    Run ok start w' := by
  induction ticks generalizing w with
  | nil =>
      cases h
      exact hrun
  | cons tick ticks ih =>
      simp only [play, Option.ite_none_right_eq_some] at h
      obtain ⟨htick, h⟩ := h
      obtain ⟨⟨status, mid⟩, hmove, h⟩ := Option.bind_eq_some_iff.1 h
      exact ih h (.tick hrun (hcheck w tick htick) hmove)

/-- What calls of `move` lead to is reachable. -/
theorem reachable_of_play {check : StudentWorld → Tick → Bool} {ticks : List Tick}
    {w w' : StudentWorld} (h : play check ticks w = some w') (hw : Reachable w) : Reachable w' := by
  obtain ⟨start, hstart, hrun⟩ := hw
  exact ⟨start, hstart, run_of_play (fun _ _ _ => trivial) h hrun⟩

end StudentWorld

/-! ## The first level -/

open StudentWorld

/-- A tick in which the player does nothing. -/
def idleTick : Tick :=
  ⟨none, [0], fun _ _ => false⟩

/-- A tick in which the player presses a key. -/
def keyTick (key : Key) : Tick :=
  ⟨some key, [0], fun _ _ => false⟩

/-- What the constructor of the world leaves, with numbers for `init`. -/
def beforeFirstLevel : StudentWorld where
  level := 0
  lives := 3
  score := 0
  tunnelMan := .new
  actors := []
  ground := fun _ _ => false
  protestorMaze := []
  barrelsLeft := 0
  draws := [0, 0, 10, 0, 20, 35, 40, 0, 50, 0, 0, 0, 0]
  stray := fun _ _ => false

/-- The first level, with boulders at `(0, 20)` and `(10, 20)` and barrels at `(20, 55)` and
`(40, 20)`. -/
def firstLevel : StudentWorld :=
  { beforeFirstLevel with
    actors := [Boulder.new 0 20 0, Boulder.new 10 20 0, Barrel.new 20 55, Barrel.new 40 20,
      GoldenNugget.new 50 0 0, GoldenNugget.new 0 0 0, RegularProtestor.new 0 0 0]
    ground :=
      ((({ beforeFirstLevel with ground := fullField }).digEarth 0 20).digEarth 10 20).ground
    barrelsLeft := 2
    draws := [] }

/-- The first level is one that `init` starts. -/
theorem started_firstLevel : Started firstLevel :=
  ⟨beforeFirstLevel, fun _ => 0, rfl, rfl⟩

/-- The first level is reachable. -/
theorem reachable_firstLevel : Reachable firstLevel :=
  ⟨firstLevel, started_firstLevel, .start⟩

end Coursework.OilField
