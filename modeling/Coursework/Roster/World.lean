import Coursework.Roster.Program

/-!
# Programs with several rosters

A program constructs rosters, numbered in the order of their construction, and calls their member
functions. All nodes are on one store, so a mistake in one roster can damage another one.
`World.exec` is one call, and `Op.apply` says what the call is for, on sheets.
Vocabulary and scope: `Coursework.Roster.Program`.
-/

namespace Coursework.Roster

open Heap

/-- The rosters of a program and the store with their nodes. -/
structure World where
  store : Store Node
  rosters : List BballRoster

/-- What a program does with its rosters, which it names by their numbers. -/
inductive Op where
  | construct
  | copyConstruct (src : Nat)
  | assign (dest src : Nat)
  | swapRoster (this other : Nat)
  | signPlayer (i : Nat) (player : Player)
  | renouncePlayer (i : Nat) (firstName lastName : StdString)
  deriving DecidableEq

namespace World

/-- Before the first construction. -/
def start (choices : List Nat) : World := ⟨.empty choices, []⟩

/-- Declare a roster. -/
def construct (w : World) : World := ⟨w.store, w.rosters ++ [.new]⟩

/-- Declare a copy of a roster. -/
def copyConstruct (w : World) (src : Nat) : Option World := do
  let source ← w.rosters[src]?
  let (roster, s) ← source.copy w.store
  some ⟨s, w.rosters ++ [roster]⟩

/-- Assign to a roster. -/
def assign (w : World) (dest src : Nat) : Option World := do
  let roster ← w.rosters[dest]?
  let source ← w.rosters[src]?
  let (roster, s) ← roster.assign w.store source
  some ⟨s, w.rosters.set dest roster⟩

/-- The roster declared last goes out of scope. -/
def destroyLast (w : World) : Option World := do
  let roster ← w.rosters.getLast?
  let s ← roster.destroy w.store
  some ⟨s, w.rosters.dropLast⟩

/-- `swapRoster`, with `tempRoster` as the roster declared last. -/
def swapRoster (w : World) (this other : Nat) : Option World := do
  let tempRoster := w.rosters.length
  let w ← w.copyConstruct other
  let w ← w.assign other this
  let w ← w.assign this tempRoster
  w.destroyLast

/-- Call a member function that returns a `bool`. -/
def call (w : World) (i : Nat)
    (member : BballRoster → Store Node → Option (Bool × BballRoster × Store Node)) :
    Option (Bool × World) := do
  let roster ← w.rosters[i]?
  let (result, roster, s) ← member roster w.store
  some (result, ⟨s, w.rosters.set i roster⟩)

/-- One operation, with the value that it returns. -/
def exec (w : World) : Op → Option (Option Bool × World)
  | .construct => some (none, w.construct)
  | .copyConstruct src => (w.copyConstruct src).map (none, ·)
  | .assign dest src => (w.assign dest src).map (none, ·)
  | .swapRoster this other => (w.swapRoster this other).map (none, ·)
  | .signPlayer i player =>
      (w.call i fun roster s => roster.signPlayer s player).map (Prod.map some id)
  | .renouncePlayer i firstName lastName =>
      (w.call i fun roster s => roster.renouncePlayer s firstName lastName).map (Prod.map some id)

end World

/-! ## Non-member functions -/

namespace World

/-- Call a member function that only reads. -/
def query {β : Type} (w : World) (i : Nat) (member : BballRoster → Store Node → Option β) :
    Option β := do
  let roster ← w.rosters[i]?
  member roster w.store

/-- The strings that `choosePlayer` fills in, which are empty before. -/
def chosen (w : World) (i k : Nat) : Option Player := do
  let player ← w.query i fun roster s => roster.choosePlayer s k
  some (player.getD ⟨[], [], []⟩)

/-- Sign a player and ignore the result. -/
def sign (w : World) (i : Nat) (player : Player) : Option World := do
  let (_, w) ← w.call i fun roster s => roster.signPlayer s player
  some w

/-- The first loop of `joinRosters`, with its flag. -/
def joinFirst (bbOne bbTwo tempRoster : Nat) : Nat → Nat → Bool → World → Option (Bool × World)
  | 0, _, _, _ => none
  | fuel + 1, i, sameNameDiffValFlag, w => do
      let count ← w.query bbOne fun roster s => roster.howManyPlayers s
      if i < count then do
        let player ← w.chosen bbOne i
        let found ← w.query bbTwo fun roster s =>
          roster.lookupPlayer s player.firstName player.lastName
        match found with
        | some valTwo =>
            if player.value ≠ valTwo then joinFirst bbOne bbTwo tempRoster fuel (i + 1) true w
            else do
              let w ← w.sign tempRoster player
              joinFirst bbOne bbTwo tempRoster fuel (i + 1) sameNameDiffValFlag w
        | none => do
            let w ← w.sign tempRoster player
            joinFirst bbOne bbTwo tempRoster fuel (i + 1) sameNameDiffValFlag w
      else some (sameNameDiffValFlag, w)

/-- The second loop of `joinRosters`. -/
def joinSecond (bbOne bbTwo tempRoster : Nat) : Nat → Nat → World → Option World
  | 0, _, _ => none
  | fuel + 1, i, w => do
      let count ← w.query bbTwo fun roster s => roster.howManyPlayers s
      if i < count then do
        let player ← w.chosen bbTwo i
        let present ← w.query bbOne fun roster s =>
          roster.playerOnRoster s player.firstName player.lastName
        if ¬ present then do
          let w ← w.sign tempRoster player
          joinSecond bbOne bbTwo tempRoster fuel (i + 1) w
        else joinSecond bbOne bbTwo tempRoster fuel (i + 1) w
      else some w

/-- The body of `joinRosters`, after the declaration of `tempRoster`. -/
def joinWith (w : World) (bbOne bbTwo bbJoined tempRoster : Nat) : Option (Bool × World) :=
  if bbOne = bbTwo then do
    let w ← w.assign bbJoined bbOne
    some (true, w)
  else do
    let one ← w.rosters[bbOne]?
    let two ← w.rosters[bbTwo]?
    if one.head = none ∧ two.head = none then do
      let w ← w.assign bbJoined tempRoster
      some (true, w)
    else if one.head = none then do
      let w ← w.assign bbJoined bbOne
      some (true, w)
    else if two.head = none then do
      let w ← w.assign bbJoined bbOne
      some (true, w)
    else do
      let (sameNameDiffValFlag, w) ←
        joinFirst bbOne bbTwo tempRoster (w.store.limit + 1) 0 false w
      let w ← joinSecond bbOne bbTwo tempRoster (w.store.limit + 1) 0 w
      let w ← w.assign bbJoined tempRoster
      some (!sameNameDiffValFlag, w)

/-- `joinRosters`, with `tempRoster` as the roster declared last. -/
def joinRosters (w : World) (bbOne bbTwo bbJoined : Nat) : Option (Bool × World) := do
  let (result, w) ← w.construct.joinWith bbOne bbTwo bbJoined w.rosters.length
  let w ← w.destroyLast
  some (result, w)

/-- The string `"*"`. -/
def wildcard : StdString := [⟨42, by decide⟩]

/-- Whether the loop body of `checkRoster` signs a player. -/
def selects (fsearch lsearch : StdString) (player : Player) : Bool :=
  if fsearch = wildcard then lsearch = player.lastName
  else if lsearch = wildcard then fsearch = player.firstName
  else lsearch = player.lastName ∧ fsearch = player.firstName

/-- The loop of `checkRoster`. -/
def checkFrom (fsearch lsearch : StdString) (bbOne tempRoster : Nat) :
    Nat → Nat → World → Option World
  | 0, _, _ => none
  | fuel + 1, i, w => do
      let count ← w.query bbOne fun roster s => roster.howManyPlayers s
      if i < count then do
        let player ← w.chosen bbOne i
        if selects fsearch lsearch player then do
          let w ← w.sign tempRoster player
          checkFrom fsearch lsearch bbOne tempRoster fuel (i + 1) w
        else checkFrom fsearch lsearch bbOne tempRoster fuel (i + 1) w
      else some w

/-- `checkRoster`, with `tempRoster` as the roster declared last. -/
def checkRoster (w : World) (fsearch lsearch : StdString) (bbOne bbResult : Nat) :
    Option World := do
  let tempRoster := w.rosters.length
  let w := w.construct
  let w ← if fsearch = wildcard ∧ lsearch = wildcard then w.assign bbResult bbOne
    else do
      let w ← checkFrom fsearch lsearch bbOne tempRoster (w.store.limit + 1) 0 w
      w.assign bbResult tempRoster
  w.destroyLast

end World

/-! ## What programs do -/

/-- The players that the `next` pointers lead to. -/
def playersFrom (s : Store Node) : Nat → Ptr → Option (List Player)
  | 0, _ => none
  | _ + 1, none => some []
  | fuel + 1, some a => do
      let node ← s.cell? a
      let players ← playersFrom s fuel node.next
      some (node.value :: players)

/-- The players of a roster in the order of its nodes. -/
def World.players (w : World) (i : Nat) : Option (List Player) := do
  let roster ← w.rosters[i]?
  playersFrom w.store (w.store.limit + 1) roster.head

namespace Op

/-- The operation names only the first `count` rosters. -/
def Names (count : Nat) : Op → Prop
  | construct => True
  | copyConstruct src => src < count
  | assign dest src => dest < count ∧ src < count
  | swapRoster this other => this < count ∧ other < count
  | signPlayer i _ => i < count
  | renouncePlayer i _ _ => i < count

instance (count : Nat) : (op : Op) → Decidable (op.Names count)
  | construct => inferInstanceAs (Decidable True)
  | copyConstruct _ | signPlayer _ _ | renouncePlayer _ _ _ => inferInstanceAs (Decidable (_ < _))
  | assign _ _ | swapRoster _ _ => inferInstanceAs (Decidable (_ ∧ _))

/-- The operation on sheets. -/
def apply (sheets : List Sheet) : Op → Option (Option Bool × List Sheet)
  | construct => some (none, sheets ++ [.empty])
  | copyConstruct src => do
      let sheet ← sheets[src]?
      some (none, sheets ++ [sheet])
  | assign dest src => do
      let _ ← sheets[dest]?
      let sheet ← sheets[src]?
      some (none, sheets.set dest sheet)
  | swapRoster this other => do
      let one ← sheets[this]?
      let two ← sheets[other]?
      some (none, (sheets.set other one).set this two)
  | signPlayer i player => do
      let sheet ← sheets[i]?
      let (result, sheet) := sheet.sign player
      some (some result, sheets.set i sheet)
  | renouncePlayer i firstName lastName => do
      let sheet ← sheets[i]?
      let (result, sheet) := sheet.renounce firstName lastName
      some (some result, sheets.set i sheet)

end Op

/-- A program: operations after each other, each on rosters that are declared. -/
def World.run (w : World) : List Op → Option World
  | [] => some w
  | op :: ops =>
      if op.Names w.rosters.length then do
        let (_, w) ← w.exec op
        w.run ops
      else none

end Coursework.Roster
