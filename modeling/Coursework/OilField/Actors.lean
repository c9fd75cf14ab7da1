import Coursework.OilField.ExitPath

/-!
# What the actors do

The `doSomething` functions of `Actor.cpp` and the functions of `StudentWorld` they call. Sounds
are left out. An actor that is asked is given with its position in `m_actors`, where it is stored
again.
-/

namespace Coursework.OilField

/-! ## Annoyance -/

/-- `AnimateObject::annoy` of the player. -/
def TunnelMan.annoy (t : TunnelMan) (damage : Int) : TunnelMan :=
  let t := { t with hitPoints := t.hitPoints - damage }
  if t.hitPoints ≤ 0 then { t with isDead := true } else t

/-- `AnimateObject::annoy` of a protester. -/
def RegularProtestor.annoy (p : RegularProtestor) (damage : Int) : RegularProtestor :=
  let p := { p with hitPoints := p.hitPoints - damage }
  if p.hitPoints ≤ 0 then { p with isDead := true } else p

/-- `annoy`, which only protesters override. -/
def Actor.annoy (w : StudentWorld) (a : Actor) (damage : Int) : Option (Actor × StudentWorld) :=
  match a.kind with
  | .regularProtestor p =>
      if a.state = .exiting then some (a, w)
      else
        let p := p.annoy damage
        if a.state = .dead then do
          let (path, w) ← w.createPath a.x a.y p.exitPath
          some ({ a with state := .exiting, kind := .regularProtestor { p with exitPath := path } },
            w)
        else some ({ a with kind := .regularProtestor p }, w)
  | _ => some (a, w)

namespace StudentWorld

/-- `annoyPlayer`. -/
def annoyPlayer (w : StudentWorld) : StudentWorld :=
  let t := w.tunnelMan.annoy 2
  { w with tunnelMan := if t.hitPoints ≤ 0 then { t with state := .dead } else t }

/-- The loops over the first `n` actors that annoy those that are hit; whether there were any. -/
def annoyActors (hit : Actor → Bool) (damage : Int) :
    Nat → StudentWorld → Option (Bool × StudentWorld)
  | 0, w => some (false, w)
  | n + 1, w => do
      let (contactFlag, w) ← annoyActors hit damage n w
      match w.actors[n]? with
      | none => some (contactFlag, w)
      | some a =>
          if hit a then do
            let (a, w) ← a.annoy w damage
            some (true, w.setActor n a)
          else some (contactFlag, w)

/-- The part of `crushedByRock` for the player. -/
def crushPlayer (w : StudentWorld) (x y : Int) : StudentWorld :=
  if within 3 (w.tunnelMan.x + 2) (w.tunnelMan.y + 2) (x + 2) (y + 2) then
    { w with tunnelMan := { w.tunnelMan with state := .dead } }
  else w

/-- `crushedByRock`. -/
def crushedByRock (w : StudentWorld) (x y : Int) : Option StudentWorld := do
  let (_, w) ← annoyActors (fun a => a.isAnimate && !(a.x == x && a.y == y) &&
    within 3 (x + 2) (y + 2) (a.x + 2) (a.y + 2)) 100 w.actors.length (w.crushPlayer x y)
  some w

/-- `hitBySquirt`; no actor in `m_actors` is the player. -/
def hitBySquirt (w : StudentWorld) (x y : Int) : Option (Bool × StudentWorld) :=
  annoyActors (fun a => a.isAnimate && within 3 x y a.x a.y) 2 w.actors.length w

end StudentWorld

/-! ## Terrain -/

/-- The state and the clock of a boulder after its stable and waiting states were looked at. -/
def Boulder.wait (w : StudentWorld) (a : Actor) (waitClock : Int) : State × Int :=
  let supported := w.checkEarth a.x (a.y - 1) || w.checkEarth (a.x + 1) (a.y - 1) ||
    w.checkEarth (a.x + 2) (a.y - 1) || w.checkEarth (a.x + 3) (a.y - 1)
  let (state, waitClock) :=
    if a.state = .stable ∧ supported = false then (.waiting, 30) else (a.state, waitClock)
  if state = .waiting then
    if waitClock = 0 then (.falling, waitClock) else (.waiting, waitClock - 1)
  else (state, waitClock)

/-- `Boulder::doSomething`. -/
def Boulder.doSomething (w : StudentWorld) (n : Nat) (a : Actor) (waitClock : Int) :
    Option StudentWorld :=
  let (state, waitClock) := Boulder.wait w a waitClock
  let a := { a with state := state, kind := .boulder waitClock }
  if state = .falling then
    if a.y = 0 ∨ w.checkEarth a.x a.y = true ∨ w.blocked a.x a.y = true then
      some (w.setActor n (a.setState .dead))
    else do
      let w ← w.crushedByRock a.x a.y
      some (w.setActor n (a.moveTo a.x (a.y - 1)))
  else some (w.setActor n a)

/-- `Barrel::activate`. -/
def Barrel.activate (w : StudentWorld) (n : Nat) (a : Actor) : StudentWorld :=
  { w.setActor n (a.setState .dead) with
    score := w.score + 1000
    barrelsLeft := w.barrelsLeft - 1 }

/-- `Barrel::doSomething`. -/
def Barrel.doSomething (w : StudentWorld) (n : Nat) (a : Actor) : StudentWorld :=
  if a.state = .dead then w
  else if a.isVisible = false ∧ w.nearPlayer 4 a.x a.y = true then
    w.setActor n { a with isVisible := true }
  else if w.nearPlayer 3 a.x a.y then activate w n a
  else w

/-- A goodie with a clock: `doSomething` of `WaterRefill` and of `SonarKit`. -/
def Goodie.doSomething (w : StudentWorld) (n : Nat) (a : Actor) (clock : Int) (kind : Int → Kind)
    (points : Int) (gain : TunnelMan → TunnelMan) : StudentWorld :=
  let a := if clock = 0 then a.setState .dead else a
  if a.state = .dead then w.setActor n a
  else if w.nearPlayer 3 a.x a.y then
    { w.setActor n (a.setState .dead) with
      score := w.score + points
      tunnelMan := gain w.tunnelMan }
  else if a.state = .temporary then w.setActor n { a with kind := kind (clock - 1) }
  else w.setActor n a

/-- `WaterRefill::doSomething`. -/
def WaterRefill.doSomething (w : StudentWorld) (n : Nat) (a : Actor) (clock : Int) : StudentWorld :=
  Goodie.doSomething w n a clock .waterRefill 100 fun t =>
    { t with nWaterSquirts := t.nWaterSquirts + 5 }

/-! ## Inventory -/

/-- `SonarKit::doSomething`. -/
def SonarKit.doSomething (w : StudentWorld) (n : Nat) (a : Actor) (clock : Int) : StudentWorld :=
  Goodie.doSomething w n a clock .sonarKit 75 fun t => { t with nSonarKits := t.nSonarKits + 1 }

/-- `GoldenNugget::doSomething`. -/
def GoldenNugget.doSomething (w : StudentWorld) (n : Nat) (a : Actor) (isBribeOffer : Bool)
    (waitClock : Int) : StudentWorld :=
  if a.state = .dead then w
  else if isBribeOffer = false ∧ w.nearPlayer 3 a.x a.y = true then
    { w.setActor n (a.setState .dead) with
      score := w.score + 10
      tunnelMan := { w.tunnelMan with nGoldenNuggets := w.tunnelMan.nGoldenNuggets + 1 } }
  else if isBribeOffer = false ∧ w.nearPlayer 4 a.x a.y = true then
    w.setActor n { a with isVisible := true }
  else if isBribeOffer then
    let a := { a with kind := .goldenNugget isBribeOffer (waitClock - 1) }
    w.setActor n (if waitClock - 1 = 0 then a.setState .dead else a)
  else w

/-- `WaterSquirt::doSomething`: the squares around `(getX(), getX())` are hit. -/
def WaterSquirt.doSomething (w : StudentWorld) (n : Nat) (a : Actor) (travelDistance : Int) :
    Option StudentWorld := do
  let (contactFlag, w) ← w.hitBySquirt a.x a.x
  let a := if contactFlag then a.setState .dead else a
  let next := a.direction.ahead a.x a.y
  if travelDistance = 0 ∨ a.direction.atBoundary a.x a.y = true ∨
      w.checkEarth next.1 next.2 = true ∨ w.blocked a.x a.y = true then
    some (w.setActor n (a.setState .dead))
  else
    some (w.setActor n
      { a.moveTo next.1 next.2 with kind := .waterSquirt (travelDistance - 1) })

/-! ## Protesters -/

namespace Actor

variable (w : StudentWorld) (a : Actor)

/-- The tests of `attemptShout`: the player is on the side that the protester faces. -/
def facesPlayer : Bool :=
  match a.direction with
  | .right => decide (a.x < w.tunnelMan.x)
  | .left => decide (a.x > w.tunnelMan.x)
  | .up => decide (a.y < w.tunnelMan.y)
  | .down => decide (a.y > w.tunnelMan.y)

/-- `attemptShout`, with `shout`. -/
def attemptShout (p : RegularProtestor) : RegularProtestor × StudentWorld :=
  if p.shoutClock ≠ 0 then (p, w)
  else if a.facesPlayer w then ({ p with shoutClock := 15 + 15 }, w.annoyPlayer)
  else (p, w)

/-- `sawPlayer`. -/
def sawPlayer : Bool :=
  w.clearPath a.x a.y w.tunnelMan.x w.tunnelMan.y

/-- The protester turns and moves one square. -/
def step (direction : Direction) : Actor :=
  (a.setDirection direction).moveTo (direction.ahead a.x a.y).1 (direction.ahead a.x a.y).2

/-- `moveTowardPlayer`. -/
def moveTowardPlayer : Actor :=
  if a.x < w.tunnelMan.x then a.step .right
  else if a.x > w.tunnelMan.x then a.step .left
  else if a.y < w.tunnelMan.y then a.step .up
  else if a.y > w.tunnelMan.y then a.step .down
  else a

/-- `clearPath` to the next square in a direction. -/
def clearAhead (direction : Direction) : Bool :=
  w.clearPath a.x a.y (direction.ahead a.x a.y).1 (direction.ahead a.x a.y).2

/-- The direction for a number that `rand() % 3` returned. -/
def pickedDirection (draw : Nat) : Direction :=
  match draw % 3 with
  | 0 => .right
  | 1 => .left
  | 2 => .up
  | _ => .down

/-- The loop of `pickNewDirection`, with the numbers that are left. -/
def pickFrom : List Nat → Actor → Option (Actor × List Nat)
  | [], _ => none
  | draw :: draws, a =>
      let a := a.setDirection (pickedDirection draw)
      if a.clearAhead w a.direction then some (a, draws) else pickFrom draws a

/-- `pickNewDirection`. -/
def pickNewDirection : Option (Actor × StudentWorld) := do
  let (a, draws) ← pickFrom w w.draws a
  some (a, { w with draws := draws })

/-- `moveOnce`: whether the protester moved. -/
def moveOnce : Bool × Actor :=
  if a.direction.atBoundary a.x a.y then (false, a) else (true, a.step a.direction)

/-- `checkForTurn`. -/
def checkForTurn : Actor :=
  if a.direction = .right ∨ a.direction = .left then
    if a.clearAhead w .up then (a.setDirection .up).moveOnce.2
    else if a.clearAhead w .down then (a.setDirection .down).moveOnce.2
    else a
  else if a.clearAhead w .right then (a.setDirection .right).moveOnce.2
  else if a.clearAhead w .left then (a.setDirection .left).moveOnce.2
  else a

/-- The end of a protester's `doSomething`. -/
def moveOrTurn : Option (Actor × StudentWorld) :=
  if a.moveOnce.1 then some (a.moveOnce.2, w) else a.pickNewDirection w

/-- What a protester does that neither saw the player nor is close. -/
def wander (p : RegularProtestor) : Option (Actor × RegularProtestor × StudentWorld) := do
  let squares := p.numSquaresToMoveInCurrentDirection - 1
  if squares ≤ 0 then
    let (a, w) ← a.pickNewDirection w
    let (draw, w) ← w.rand
    some (a.moveOnce.2, { p with numSquaresToMoveInCurrentDirection := draw % 52 + 8 }, w)
  else
    let (a, w) ← (a.checkForTurn w).moveOrTurn w
    some (a, { p with numSquaresToMoveInCurrentDirection := squares }, w)

/-- The body of `doSomething` of a protester: the protester and the world afterwards. -/
def protest (p : RegularProtestor) : Option (Actor × RegularProtestor × StudentWorld) :=
  let p := p.tick
  let a := if p.ticksToWaitBetweenMoves ≤ 0 then a.setState .searching else a
  if a.state = .dead then some (a, p, w)
  else if a.state = .resting then
    some (a, { p with ticksToWaitBetweenMoves := p.ticksToWaitBetweenMoves - 1 }, w)
  else if a.state = .exiting then
    if a.x = 60 ∧ a.y = 60 then do
      let (a, w) ← (a.setState .dead).moveOrTurn w
      some (a, p, w)
    else some ((a.leave p).1, (a.leave p).2, w)
  else if w.nearPlayer 4 a.x a.y then do
    let (a', w) ← a.moveOrTurn (a.attemptShout w p).2
    some (a', (a.attemptShout w p).1, w)
  else if a.sawPlayer w then some (a.moveTowardPlayer w, p, w)
  else a.wander w p

end Actor

/-- `RegularProtestor::doSomething`. -/
def RegularProtestor.doSomething (w : StudentWorld) (n : Nat) (a : Actor) (p : RegularProtestor) :
    Option StudentWorld := do
  let (a, p, w) ← a.protest w p
  some (w.setActor n { a with kind := .regularProtestor p })

/-- `doSomething`. -/
def Actor.doSomething (w : StudentWorld) (n : Nat) (a : Actor) : Option StudentWorld :=
  match a.kind with
  | .boulder waitClock => Boulder.doSomething w n a waitClock
  | .barrel => some (Barrel.doSomething w n a)
  | .waterRefill clock => some (WaterRefill.doSomething w n a clock)
  | .waterSquirt travelDistance => WaterSquirt.doSomething w n a travelDistance
  | .goldenNugget isBribeOffer waitClock =>
      some (GoldenNugget.doSomething w n a isBribeOffer waitClock)
  | .sonarKit clock => some (SonarKit.doSomething w n a clock)
  | .regularProtestor p => RegularProtestor.doSomething w n a p

end Coursework.OilField
