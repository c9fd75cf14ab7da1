import Mathlib.Data.List.Basic
import Mathlib.Order.Lattice
import Mathlib.Algebra.Ring.Int.Defs

/-!
# The oil field

The data of the game in `StudentWorld.h` and `Actor.h`, and the questions that actors ask about
the field. The base classes of the game's framework are taken to store what is set. A pointer to
an actor is its position in `m_actors`; the derived class of an actor is its `kind`. Numbers that
`rand` has yet to return are a list, and a step that needs more of them is `none`. A read of
`ground` outside the array finds what `stray` says.
-/

namespace Coursework.OilField

/-- `GraphObject::Direction`. -/
inductive Direction where
  | up | down | left | right
  deriving DecidableEq

/-- `State`. -/
inductive State where
  | dead | alive | stable | waiting | falling | permanent | temporary | exiting | searching
  | resting
  deriving DecidableEq

/-- What `RegularProtestor` and `AnimateObject` add to an actor. -/
structure RegularProtestor where
  isDead : Bool
  hitPoints : Int
  exitPath : List Char
  numSquaresToMoveInCurrentDirection : Int
  ticksToWaitBetweenMoves : Int
  shoutClock : Int
  deriving DecidableEq

/-- The classes of the actors in `m_actors`, with the members of each. -/
inductive Kind where
  | boulder (waitClock : Int)
  | barrel
  | waterRefill (clock : Int)
  | waterSquirt (travelDistance : Int)
  | goldenNugget (isBribeOffer : Bool) (waitClock : Int)
  | sonarKit (clock : Int)
  | regularProtestor (members : RegularProtestor)
  deriving DecidableEq

/-- `Actor`, with what it stores in `GraphObject`. -/
structure Actor where
  x : Int
  y : Int
  direction : Direction
  isVisible : Bool
  isAnimate : Bool
  state : State
  kind : Kind
  deriving DecidableEq

/-- `TunnelMan`. -/
structure TunnelMan where
  x : Int
  y : Int
  direction : Direction
  state : State
  isDead : Bool
  hitPoints : Int
  nWaterSquirts : Int
  nSonarKits : Int
  nGoldenNuggets : Int
  deriving DecidableEq

/-- `StudentWorld`, with what it stores in `GameWorld`. -/
structure StudentWorld where
  level : Nat
  lives : Int
  score : Int
  tunnelMan : TunnelMan
  actors : List Actor
  ground : Int → Int → Bool
  protestorMaze : List (List Char)
  barrelsLeft : Int
  draws : List Nat
  stray : Int → Int → Bool

/-- The whole numbers from `first` up to, and without, `last`. -/
def intRange (first last : Int) : List Int :=
  (List.range (last - first).toNat).map fun (i : Nat) => first + i

/-- `getDistance(x1, y1, x2, y2) <= r`. -/
def within (r x1 y1 x2 y2 : Int) : Bool :=
  decide ((x1 - x2) * (x1 - x2) + (y1 - y2) * (y1 - y2) ≤ r * r)

/-- The constructor `Actor`. -/
def Actor.new (x y : Int) (direction : Direction) (kind : Kind) : Actor :=
  ⟨x, y, direction, true, false, .alive, kind⟩

/-- `moveTo`. -/
def Actor.moveTo (a : Actor) (x y : Int) : Actor :=
  { a with x := x, y := y }

/-- `setState`. -/
def Actor.setState (a : Actor) (state : State) : Actor :=
  { a with state := state }

/-- `setDirection`. -/
def Actor.setDirection (a : Actor) (direction : Direction) : Actor :=
  { a with direction := direction }

/-- `getID() == TID_BOULDER`. -/
def Actor.isBoulder (a : Actor) : Bool :=
  match a.kind with
  | .boulder _ => true
  | _ => false

namespace Direction

/-- The square one step from `(x, y)` in a direction. -/
def ahead : Direction → Int → Int → Int × Int
  | .up, x, y => (x, y + 1)
  | .down, x, y => (x, y - 1)
  | .left, x, y => (x - 1, y)
  | .right, x, y => (x + 1, y)

/-- The tests of `getX()` and `getY()` at the boundaries of the field. -/
def atBoundary : Direction → Int → Int → Bool
  | .up, _, y => y == 60
  | .down, _, y => y == 0
  | .left, x, _ => x == 0
  | .right, x, _ => x == 60

end Direction

namespace StudentWorld

/-- `rand`. -/
def rand (w : StudentWorld) : Option (Nat × StudentWorld) :=
  match w.draws with
  | [] => none
  | draw :: draws => some (draw, { w with draws := draws })

/-- `checkEarth`. -/
def checkEarth (w : StudentWorld) (x y : Int) : Bool :=
  if 0 ≤ x ∧ x < 63 ∧ 0 ≤ y ∧ y < 60 then w.ground x y else w.stray x y

/-- `blocked`. -/
def blocked (w : StudentWorld) (x y : Int) : Bool :=
  w.actors.any fun a =>
    a.isBoulder && !(x == a.x && y == a.y) && within 2 (x + 2) (y + 2) (a.x + 2) (a.y + 2)

/-- `digEarth`. -/
def digEarth (w : StudentWorld) (x y : Int) : StudentWorld :=
  if y = 60 then w
  else
    { w with
      ground := fun k j =>
        if x ≤ k ∧ k < 63 ∧ k < x + 4 ∧ y ≤ j ∧ j < 60 ∧ j < y + 4 then false else w.ground k j }

/-- `checkEarth(i, j) || blocked(i, j)` holds for no square of these columns and rows. -/
def squaresClear (w : StudentWorld) (columns rows : List Int) : Bool :=
  rows.all fun j => columns.all fun i => !(w.checkEarth i j || w.blocked i j)

/-- `clearPath`. -/
def clearPath (w : StudentWorld) (beginx beginy endx endy : Int) : Bool :=
  if beginx = endx then
    if beginy < endy then
      w.squaresClear (intRange beginx (min (beginx + 3) 63)) (intRange beginy endy)
    else if beginy > endy then
      w.squaresClear (intRange beginx (min (beginx + 3) 63)) (intRange (endy + 1) (beginy + 1))
    else true
  else if beginy = endy then
    if beginx < endx then
      w.squaresClear (intRange beginx endx) (intRange beginy (min (beginy + 3) 60))
    else
      w.squaresClear (intRange (endx + 1) (beginx + 1)) (intRange beginy (min (beginy + 3) 60))
  else true

/-- The actor at position `n` of `m_actors` is changed. -/
def setActor (w : StudentWorld) (n : Nat) (a : Actor) : StudentWorld :=
  { w with actors := w.actors.set n a }

/-- `getDistance(x, y, getPlayerXCoord(), getPlayerYCoord()) <= r`. -/
def nearPlayer (w : StudentWorld) (r x y : Int) : Bool :=
  within r x y w.tunnelMan.x w.tunnelMan.y

end StudentWorld

end Coursework.OilField
