import Coursework.Heap.Chain
import Coursework.Roster.Sheet

/-!
# The roster class

`BballRoster.cpp` on a store of nodes. Every access to a member of a node is a checked load
or write, so `none` is an access through a null pointer or to a deleted node, or a loop that
does not end: a loop that makes more steps than the store has addresses comes to a node twice. The
counters of the class are not bounded here.
Vocabulary and scope: `Coursework.Heap.Chain`, `Coursework.Roster.Sheet`.
-/

namespace Coursework.Roster

open Heap

/-- `struct Node`. -/
abbrev Node := ListNode Player

/-- The data members of the class. -/
structure BballRoster where
  head : Ptr
  tail : Ptr
  deriving DecidableEq

namespace BballRoster

/-- The default constructor. -/
def new : BballRoster := ⟨none, none⟩

/-- The loop of `howManyPlayers`. -/
def countFrom (s : Store Node) : Nat → Ptr → Nat → Option Nat
  | 0, _, _ => none
  | _ + 1, none, i => some i
  | fuel + 1, some a, i => do
      let node ← s.cell? a
      countFrom s fuel node.next (i + 1)

/-- `howManyPlayers`. -/
def howManyPlayers (roster : BballRoster) (s : Store Node) : Option Nat :=
  countFrom s (s.limit + 1) roster.head 0

/-- The loop of `playerOnRoster`, and the one of `signPlayer` that looks for the name. -/
def findFrom (s : Store Node) (firstName lastName : StdString) : Nat → Ptr → Option Bool
  | 0, _ => none
  | _ + 1, none => some false
  | fuel + 1, some a => do
      let node ← s.cell? a
      if node.value.IsNamed firstName lastName then some true
      else findFrom s firstName lastName fuel node.next

/-- `playerOnRoster`. -/
def playerOnRoster (roster : BballRoster) (s : Store Node) (firstName lastName : StdString) :
    Option Bool :=
  if roster.head = none then some false
  else findFrom s firstName lastName (s.limit + 1) roster.head

/-- The writes that put `newNode` in front. -/
def linkFront (roster : BballRoster) (s : Store Node) (newNode : Nat) : Option (Store Node) := do
  let s ← s.modify (some newNode) fun node => { node with next := roster.head }
  let s ← s.modify (some newNode) fun node => { node with previous := none }
  if roster.head ≠ none then
    s.modify roster.head fun node => { node with previous := some newNode }
  else some s

/-- `insertPlayerToFront`. -/
def insertPlayerToFront (roster : BballRoster) (s : Store Node) (player : Player) :
    Option (BballRoster × Store Node) := do
  let newNode := s.fresh
  let s ← roster.linkFront (s.new ⟨player, none, none⟩) newNode
  let roster := { roster with head := some newNode }
  let count ← roster.howManyPlayers s
  some (if count = 1 then { roster with tail := roster.head } else roster, s)

/-- The writes that put `newNode` behind `last`. -/
def linkRear (s : Store Node) (newNode : Nat) (last : Ptr) : Option (Store Node) := do
  let s ← s.modify last fun node => { node with next := some newNode }
  let s ← s.modify (some newNode) fun node => { node with next := none }
  s.modify (some newNode) fun node => { node with previous := last }

/-- `insertPlayerToRear`. -/
def insertPlayerToRear (roster : BballRoster) (s : Store Node) (player : Player) :
    Option (BballRoster × Store Node) :=
  if roster.head = none then roster.insertPlayerToFront s player
  else do
    let newNode := s.fresh
    let s ← linkRear (s.new ⟨player, none, none⟩) newNode roster.tail
    some ({ roster with tail := some newNode }, s)

/-! ## `signPlayer` -/

/-- The inner loop over the players with the same last name: `traversePtr` and `nextToLast`. -/
def skipFirstNames (s : Store Node) (player : Player) : Nat → Ptr → Ptr → Option (Ptr × Ptr)
  | 0, _, _ => none
  | _ + 1, none, nextToLast => some (none, nextToLast)
  | fuel + 1, some a, nextToLast => do
      let node ← s.cell? a
      if node.value.lastName = player.lastName ∧ node.value.firstName < player.firstName then
        skipFirstNames s player fuel node.next (if node.next = none then some a else nextToLast)
      else some (some a, nextToLast)

/-- The four writes that put `newNode` ahead of `traversePtr`. -/
def linkAhead (s : Store Node) (newNode : Nat) (traversePtr : Ptr) : Option (Store Node) := do
  let s ← s.modify (some newNode) fun node => { node with next := traversePtr }
  let traversed ← s.load traversePtr
  let s ← s.modify (some newNode) fun node => { node with previous := traversed.previous }
  let s ← s.modify traversePtr fun node => { node with previous := some newNode }
  let inserted ← s.cell? newNode
  s.modify inserted.previous fun node => { node with next := some newNode }

/-- The four writes that put `newNode` behind `traversePtr`. -/
def linkBehind (s : Store Node) (newNode : Nat) (traversePtr : Ptr) : Option (Store Node) := do
  let traversed ← s.load traversePtr
  let s ← s.modify (some newNode) fun node => { node with next := traversed.next }
  let s ← s.modify (some newNode) fun node => { node with previous := traversePtr }
  let s ← s.modify traversePtr fun node => { node with next := some newNode }
  let inserted ← s.cell? newNode
  s.modify inserted.next fun node => { node with previous := some newNode }

/-- The branch for a player whose last name is on the roster. -/
def insertByFirstName (roster : BballRoster) (s : Store Node) (player : Player) (fuel : Nat)
    (traversePtr : Ptr) : Option (Bool × BballRoster × Store Node) := do
  let (traversePtr, nextToLast) ← skipFirstNames s player fuel traversePtr none
  let newNode := s.fresh
  let s := s.new ⟨player, none, none⟩
  if traversePtr = none then do
    let s ← s.modify (some newNode) fun node => { node with next := none }
    let s ← s.modify (some newNode) fun node => { node with previous := nextToLast }
    let s ← s.modify nextToLast fun node => { node with next := some newNode }
    some (true, { roster with tail := some newNode }, s)
  else do
    let traversed ← s.load traversePtr
    -- the source has a branch of its own for the last node, with the same writes
    let s ← if traversed.next = none then linkAhead s newNode traversePtr
      else linkAhead s newNode traversePtr
    some (true, roster, s)

/-- The loop that looks for the place of a player between the first and the last one. -/
def placeFrom (roster : BballRoster) (s : Store Node) (player : Player) :
    Nat → Ptr → Option (Bool × BballRoster × Store Node)
  | 0, _ => none
  | _ + 1, none => some (false, roster, s)
  | fuel + 1, some a => do
      let node ← s.cell? a
      if node.value.lastName = player.lastName then
        insertByFirstName roster s player (s.limit + 1) (some a)
      else if node.value.lastName < player.lastName then do
        let after ← s.load node.next
        if player.lastName < after.value.lastName then do
          let s ← linkBehind (s.new ⟨player, none, none⟩) s.fresh (some a)
          some (true, roster, s)
        else placeFrom roster s player fuel node.next
      else placeFrom roster s player fuel node.next

/-- `signPlayer`. -/
def signPlayer (roster : BballRoster) (s : Store Node) (player : Player) :
    Option (Bool × BballRoster × Store Node) :=
  if roster.head = none then do
    let (roster, s) ← roster.insertPlayerToFront s player
    some (true, roster, s)
  else do
    let present ← findFrom s player.firstName player.lastName (s.limit + 1) roster.head
    if present then some (false, roster, s)
    else do
      let front ← s.load roster.head
      if player.Before front.value then do
        let (roster, s) ← roster.insertPlayerToFront s player
        some (true, roster, s)
      else do
        let rear ← s.load roster.tail
        if rear.value.Before player then do
          let (roster, s) ← roster.insertPlayerToRear s player
          some (true, roster, s)
        else placeFrom roster s player (s.limit + 1) roster.head

/-! ## `renouncePlayer` -/

/-- Take the first node out. -/
def dropFront (roster : BballRoster) (s : Store Node) (front : Node) :
    Option (BballRoster × Store Node) := do
  let traversePtr := roster.head
  let roster := { roster with head := front.next }
  let s ← if roster.head ≠ none then
      s.modify roster.head fun node => { node with previous := none }
    else some s
  let s ← s.delete traversePtr
  some (roster, s)

/-- Take the last node out. -/
def dropRear (roster : BballRoster) (s : Store Node) (rear : Node) :
    Option (BballRoster × Store Node) := do
  let traversePtr := roster.tail
  let roster := { roster with tail := rear.previous }
  let s ← s.delete traversePtr
  -- only the first of the two indented statements belongs to the `if`
  let traversePtr := if roster.tail ≠ none then roster.tail else traversePtr
  let s ← s.modify traversePtr fun node => { node with next := none }
  some (roster, s)

/-- Take a node out that is neither the first nor the last one. -/
def dropMiddle (s : Store Node) (traversePtr : Ptr) : Option (Store Node) := do
  let traversed ← s.load traversePtr
  let s ← s.modify traversed.next fun node => { node with previous := traversed.previous }
  let traversed ← s.load traversePtr
  let s ← s.modify traversed.previous fun node => { node with next := traversed.next }
  s.delete traversePtr

/-- The loop that looks for a player between the first and the last one. -/
def removeFrom (roster : BballRoster) (s : Store Node) (firstName lastName : StdString) :
    Nat → Ptr → Option (Bool × BballRoster × Store Node)
  | 0, _ => none
  | fuel + 1, traversePtr => do
      let node ← s.load traversePtr
      if node.next = none then some (false, roster, s)
      else if node.value.IsNamed firstName lastName then do
        let s ← dropMiddle s traversePtr
        some (true, roster, s)
      else removeFrom roster s firstName lastName fuel node.next

/-- `renouncePlayer`. -/
def renouncePlayer (roster : BballRoster) (s : Store Node) (firstName lastName : StdString) :
    Option (Bool × BballRoster × Store Node) := do
  let present ← roster.playerOnRoster s firstName lastName
  if ¬ present then some (false, roster, s)
  else do
    let front ← s.load roster.head
    if front.value.IsNamed firstName lastName then do
      let (roster, s) ← roster.dropFront s front
      some (true, roster, s)
    else do
      let rear ← s.load roster.tail
      if rear.value.IsNamed firstName lastName then do
        let (roster, s) ← roster.dropRear s rear
        some (true, roster, s)
      else removeFrom roster s firstName lastName (s.limit + 1) roster.head

/-! ## Whole rosters -/

/-- The loop of the destructor. -/
def deleteFrom : Nat → Store Node → Ptr → Option (Store Node)
  | 0, _, _ => none
  | _ + 1, s, none => some s
  | fuel + 1, s, some a => do
      let node ← s.cell? a
      let s ← s.delete (some a)
      deleteFrom fuel s node.next

/-- The destructor. -/
def destroy (roster : BballRoster) (s : Store Node) : Option (Store Node) :=
  deleteFrom (s.limit + 1) s roster.head

/-- The loop of the copy constructor and of the assignment. -/
def copyFrom : Nat → BballRoster → Store Node → Ptr → Option (BballRoster × Store Node)
  | 0, _, _, _ => none
  | _ + 1, roster, s, none => some (roster, s)
  | fuel + 1, roster, s, some a => do
      let node ← s.cell? a
      let (roster, s) ← roster.insertPlayerToRear s node.value
      let node ← s.cell? a
      copyFrom fuel roster s node.next

/-- The copy constructor. -/
def copy (src : BballRoster) (s : Store Node) : Option (BballRoster × Store Node) :=
  copyFrom (s.limit + 1) new s src.head

/-- `operator=`. -/
def assign (roster : BballRoster) (s : Store Node) (src : BballRoster) :
    Option (BballRoster × Store Node) :=
  -- the addresses of the members `next` are equal exactly if the pointers are
  if roster.head = src.head then some (roster, s)
  else if src.head = none then
    if roster.head = none then some (new, s)
    else do
      let s ← deleteFrom (s.limit + 1) s roster.head
      some (new, s)
  else do
    let s ← if roster.head ≠ none then deleteFrom (s.limit + 1) s roster.head else some s
    copyFrom (s.limit + 1) new s src.head

/-! ## One player -/

/-- The loop of `lookupPlayer`: the value, if the name is found. -/
def lookupFrom (s : Store Node) (firstName lastName : StdString) :
    Nat → Ptr → Option (Option StdString)
  | 0, _ => none
  | _ + 1, none => some none
  | fuel + 1, some a => do
      let node ← s.cell? a
      if node.value.IsNamed firstName lastName then some (some node.value.value)
      else lookupFrom s firstName lastName fuel node.next

/-- `lookupPlayer`: `some` value with the result `true`, `none` with `false`. -/
def lookupPlayer (roster : BballRoster) (s : Store Node) (firstName lastName : StdString) :
    Option (Option StdString) :=
  lookupFrom s firstName lastName (s.limit + 1) roster.head

/-- The loop of `choosePlayer`, which counts `i` down. -/
def advance (s : Store Node) : Nat → Ptr → Option Ptr
  | 0, p => some p
  | i + 1, p => do
      let node ← s.load p
      advance s i node.next

/-- `choosePlayer`: `some` player with the result `true`, `none` with `false`. -/
def choosePlayer (roster : BballRoster) (s : Store Node) (i : Int) : Option (Option Player) :=
  if roster.head = none then some none
  else do
    let count ← roster.howManyPlayers s
    if i < 0 ∨ (count : Int) ≤ i then some none
    else do
      let p ← advance s i.toNat roster.head
      let node ← s.load p
      some (some node.value)

/-- The loop of `resignPlayer`, which ends at the last node without looking at its name. -/
def resignFrom (s : Store Node) (firstName lastName value : StdString) :
    Nat → Ptr → Option (Bool × Store Node)
  | 0, _ => none
  | fuel + 1, p => do
      let node ← s.load p
      if node.next = none then some (false, s)
      else if node.value.IsNamed firstName lastName then do
        let s ← s.modify p fun node => { node with value := { node.value with value } }
        some (true, s)
      else resignFrom s firstName lastName value fuel node.next

/-- `resignPlayer`. -/
def resignPlayer (roster : BballRoster) (s : Store Node) (firstName lastName value : StdString) :
    Option (Bool × BballRoster × Store Node) := do
  let (result, s) ← resignFrom s firstName lastName value (s.limit + 1) roster.head
  some (result, roster, s)

/-- `signOrResign`. -/
def signOrResign (roster : BballRoster) (s : Store Node) (firstName lastName value : StdString) :
    Option (Bool × BballRoster × Store Node) := do
  let (resigned, roster, s) ← roster.resignPlayer s firstName lastName value
  if resigned then some (true, roster, s)
  else do
    let (resigned, roster, s) ← roster.resignPlayer s firstName lastName value
    if ¬ resigned then do
      let (_, roster, s) ← roster.signPlayer s ⟨firstName, lastName, value⟩
      some (true, roster, s)
    else some (true, roster, s)

end BballRoster

end Coursework.Roster
