import Coursework.Heap.Line
import Mathlib.Order.Lattice

/-!
# The linked list class

`LinkedList.cpp` on a store of nodes, over any ordered type of items. Every access to a member of a
node is a checked load or write, so `none` is an access through a null pointer or to a deleted
node, or a loop that does not end: a loop over a list that makes more steps than the store has
addresses comes to a node twice. The loops of `addItem` and `append` that make new nodes are bounded
by `fuel`. Numbers are unbounded, so a list has fewer nodes than an `int` counts.
Vocabulary and scope: `Coursework.Heap.Line`.
-/

namespace Coursework.LinkedLists

open Heap

/-- `struct Node`. -/
abbrev Node (ItemType : Type) := LineNode ItemType

/-- The data member of the class. -/
structure LinkedList where
  head : Ptr
  deriving DecidableEq

namespace LinkedList

variable {ItemType : Type}

/-- The default constructor. -/
def new : LinkedList := ⟨none⟩

/-- `isEmpty`. -/
def isEmpty (list : LinkedList) : Bool :=
  list.head = none

/-- `insertToFront`. -/
def insertToFront (list : LinkedList) (s : Store (Node ItemType)) (val : ItemType) :
    LinkedList × Store (Node ItemType) :=
  (⟨some s.fresh⟩, s.new ⟨val, list.head⟩)

/-- The loop of `insertToRear` to the last node. -/
def lastFrom (s : Store (Node ItemType)) : Nat → Nat → Option Nat
  | 0, _ => none
  | fuel + 1, traversePtr => do
      let node ← s.cell? traversePtr
      match node.next with
      | none => some traversePtr
      | some next => lastFrom s fuel next

/-- `insertToRear`. -/
def insertToRear (list : LinkedList) (s : Store (Node ItemType)) (val : ItemType) :
    Option (LinkedList × Store (Node ItemType)) :=
  match list.head with
  | none => some (list.insertToFront s val)
  | some head => do
      let traversePtr ← lastFrom s (s.limit + 1) head
      let s ← (s.new ⟨val, none⟩).modify (some traversePtr) fun node =>
        { node with next := some s.fresh }
      some (list, s)

/-- The test that breaks the loop of `addItem`; the next node is read if the first part holds. -/
def stopsAt [LinearOrder ItemType] (s : Store (Node ItemType)) (val : ItemType)
    (node : Node ItemType) (next : Nat) : Option Bool :=
  if node.value < val then (s.cell? next).map fun node => decide (node.value ≥ val)
  else some false

/-- The loop of `addItem`, in which the pointer stays where it is. -/
def addItemFrom [LinearOrder ItemType] (val : ItemType) (traversePtr : Nat) :
    Nat → Store (Node ItemType) → Option (Store (Node ItemType))
  | 0, _ => none
  | fuel + 1, s => do
      let node ← s.cell? traversePtr
      match node.next with
      | none => some s
      | some next => do
          let stop ← stopsAt s val node next
          if stop then some s
          else do
            let s ← (s.new ⟨val, node.next⟩).modify (some traversePtr) fun node =>
              { node with next := some s.fresh }
            addItemFrom val traversePtr fuel s

/-- `addItem`. -/
def addItem [LinearOrder ItemType] (fuel : Nat) (list : LinkedList) (s : Store (Node ItemType))
    (val : ItemType) : Option (LinkedList × Store (Node ItemType)) :=
  match list.head with
  | none => some (list.insertToFront s val)
  | some head => do
      let node ← s.cell? head
      if val < node.value then some (list.insertToFront s val)
      else do
        let s ← addItemFrom val head fuel s
        some (list, s)

/-- The loop that deletes the nodes from a pointer on. -/
def deleteFrom : Nat → Store (Node ItemType) → Ptr → Option (Store (Node ItemType))
  | 0, _, _ => none
  | _ + 1, s, none => some s
  | fuel + 1, s, some traversePtr => do
      let node ← s.cell? traversePtr
      let s ← s.delete (some traversePtr)
      deleteFrom fuel s node.next

/-- The destructor. -/
def destroy (list : LinkedList) (s : Store (Node ItemType)) : Option (Store (Node ItemType)) :=
  deleteFrom (s.limit + 1) s list.head

/-- The loop that copies the nodes from `srcPtr` on. -/
def copyFrom : Nat → LinkedList → Store (Node ItemType) → Ptr →
    Option (LinkedList × Store (Node ItemType))
  | 0, _, _, _ => none
  | _ + 1, list, s, none => some (list, s)
  | fuel + 1, list, s, some srcPtr => do
      let node ← s.cell? srcPtr
      let (list, s) ← list.insertToRear s node.value
      let node ← s.cell? srcPtr
      copyFrom fuel list s node.next

/-- The copy constructor. -/
def copy (rhs : LinkedList) (s : Store (Node ItemType)) :
    Option (LinkedList × Store (Node ItemType)) :=
  if rhs.head = none then some (new, s)
  else copyFrom (s.limit + 1) new s rhs.head

/-- `operator=`. The second test compares the addresses of members of the two first nodes. Behind
it the two lists are different objects; the test for a null
pointer ahead of the second deletion is that of its loop. -/
def assign (list : LinkedList) (s : Store (Node ItemType)) (rhs : LinkedList) :
    Option (LinkedList × Store (Node ItemType)) :=
  if rhs.head = none then do
    let s ← deleteFrom (s.limit + 1) s list.head
    some (list, s)
  else if list.head = rhs.head then some (list, s)
  else do
    let s ← deleteFrom (s.limit + 1) s list.head
    copyFrom (s.limit + 1) new s rhs.head

/-- The loop of `deleteItem`, which reads the value behind the pointer to the next node. -/
def aheadFrom [DecidableEq ItemType] (s : Store (Node ItemType)) (val : ItemType) :
    Nat → Ptr → Option Ptr
  | 0, _ => none
  | _ + 1, none => some none
  | fuel + 1, some traversePtr => do
      let node ← s.cell? traversePtr
      let next ← s.load node.next
      if next.value = val then some (some traversePtr)
      else aheadFrom s val fuel node.next

/-- `deleteItem`. A node that is not the first one is not deleted when it is unlinked. -/
def deleteItem [DecidableEq ItemType] (list : LinkedList) (s : Store (Node ItemType))
    (val : ItemType) : Option (LinkedList × Store (Node ItemType)) :=
  match list.head with
  | none => some (list, s)
  | some head => do
      let node ← s.cell? head
      if node.value = val then do
        let s ← s.delete (some head)
        some (⟨node.next⟩, s)
      else do
        let traversePtr ← aheadFrom s val (s.limit + 1) (some head)
        match traversePtr with
        | none => some (list, s)
        | some traversePtr => do
            let node ← s.cell? traversePtr
            let place ← s.load node.next
            let s ← s.modify (some traversePtr) fun node => { node with next := place.next }
            some (list, s)

/-- The loop of `size`. -/
def sizeFrom (s : Store (Node ItemType)) : Nat → Ptr → (i : Int) → Option Int
  | 0, _, _ => none
  | _ + 1, none, i => some i
  | fuel + 1, some traversePtr, i => do
      let node ← s.cell? traversePtr
      sizeFrom s fuel node.next (i + 1)

/-- `size`. -/
def size (list : LinkedList) (s : Store (Node ItemType)) : Option Int :=
  sizeFrom s (s.limit + 1) list.head 0

/-- The loop of `get` and the value behind the pointer after it. -/
def getFrom (s : Store (Node ItemType)) : Nat → (traversePtr : Nat) → (i : Int) →
    Option (Option ItemType)
  | 0, _, _ => none
  | fuel + 1, traversePtr, i => do
      let node ← s.cell? traversePtr
      if i = 0 then some (some node.value)
      else
        match node.next with
        | none => some none
        | some next => getFrom s fuel next (i - 1)

/-- `get`: the value for its reference argument, or nothing when it returns false. -/
def get (list : LinkedList) (s : Store (Node ItemType)) (i : Int) : Option (Option ItemType) :=
  match list.head with
  | none => some none
  | some traversePtr => do
      let size ← list.size s
      if size = 1 ∧ i = 0 then do
        let node ← s.cell? traversePtr
        some (some node.value)
      else getFrom s (s.limit + 1) traversePtr i

/-- The loop of `set`. -/
def advance (s : Store (Node ItemType)) : Nat → Ptr → (i : Int) → Option Ptr
  | 0, _, _ => none
  | fuel + 1, traversePtr, i =>
      if i = 0 then some traversePtr
      else do
        let node ← s.load traversePtr
        advance s fuel node.next (i - 1)

/-- `set`. -/
def set (list : LinkedList) (s : Store (Node ItemType)) (i : Int) (item : ItemType) :
    Option (Store (Node ItemType)) := do
  let size ← list.size s
  if i ≥ size then some s
  else do
    let traversePtr ← advance s (s.limit + 1) list.head i
    s.modify traversePtr fun node => { node with value := item }

/-- The loop of `reverseList`, with the indices that it calls `get` and `set` with. The variable
that `get` fills is default-constructed. -/
def reverseFrom [Inhabited ItemType] (list : LinkedList) :
    Nat → Store (Node ItemType) → (FrontPtr : Ptr) → (k : Int) →
      Option (List Int × Store (Node ItemType))
  | 0, _, _, _ => none
  | fuel + 1, s, FrontPtr, k => do
      let size ← list.size s
      if k ≥ size / 2 then do
        let front ← s.load FrontPtr
        let x ← list.get s k
        let s ← list.set s k front.value
        let s ← s.modify FrontPtr fun node => { node with value := x.getD default }
        let front ← s.load FrontPtr
        let (calls, s) ← reverseFrom list fuel s front.next (k - 1)
        some (k :: calls, s)
      else some ([], s)

/-- `reverseList`. -/
def reverseList [Inhabited ItemType] (list : LinkedList) (s : Store (Node ItemType)) :
    Option (List Int × Store (Node ItemType)) := do
  let size ← list.size s
  reverseFrom list (s.limit + 1) s list.head (size - 1)

/-- The second loop of `append`. -/
def appendFrom : Nat → Store (Node ItemType) → (endPtr : Nat) → (otherPtr : Ptr) →
    Option (Store (Node ItemType))
  | 0, _, _, _ => none
  | _ + 1, s, _, none => some s
  | fuel + 1, s, endPtr, some otherPtr => do
      let other ← s.cell? otherPtr
      let newPtr := s.fresh
      let s ← (s.new ⟨other.value, none⟩).modify (some endPtr) fun node =>
        { node with next := some newPtr }
      let other ← s.cell? otherPtr
      appendFrom fuel s newPtr other.next

/-- `append`. -/
def append (fuel : Nat) (list : LinkedList) (s : Store (Node ItemType)) (other : LinkedList) :
    Option (LinkedList × Store (Node ItemType)) := do
  let head ← list.head
  let endPtr ← lastFrom s (s.limit + 1) head
  let s ← appendFrom fuel s endPtr other.head
  some (list, s)

/-- The loop of `printList`. -/
def valuesFrom (s : Store (Node ItemType)) : Nat → Ptr → Option (List ItemType)
  | 0, _ => none
  | _ + 1, none => some []
  | fuel + 1, some traversePtr => do
      let node ← s.cell? traversePtr
      let values ← valuesFrom s fuel node.next
      some (node.value :: values)

/-- The values that `printList` prints. -/
def printList (list : LinkedList) (s : Store (Node ItemType)) : Option (List ItemType) :=
  valuesFrom s (s.limit + 1) list.head

end LinkedList

/-! ## Programs -/

/-- The lists of a program, each under its name, and the store with their nodes. -/
structure World (ι ItemType : Type) where
  store : Store (Node ItemType)
  lists : ι → LinkedList

namespace World

variable {ι ItemType : Type}

/-- Every list was default-constructed. -/
def start (choices : List Nat) : World ι ItemType := ⟨.empty choices, fun _ => .new⟩

variable [DecidableEq ι]

/-- A list and the store were changed. -/
def put (w : World ι ItemType) (i : ι) (result : LinkedList × Store (Node ItemType)) :
    World ι ItemType :=
  ⟨result.2, Function.update w.lists i result.1⟩

/-- The assignment of one list to another. -/
def assign (w : World ι ItemType) (i j : ι) : Option (World ι ItemType) :=
  ((w.lists i).assign w.store (w.lists j)).map (w.put i)

/-- `swap`, with `tempList` beside the other lists. -/
def swap (w : World ι ItemType) (this other : ι) : Option (World ι ItemType) := do
  let (tempList, s) ← (w.lists other).copy w.store
  let w ← assign ⟨s, w.lists⟩ other this
  let result ← (w.lists this).assign w.store tempList
  let w := w.put this result
  let s ← tempList.destroy w.store
  some ⟨s, w.lists⟩

/-- `append` of one list to another. -/
def append (w : World ι ItemType) (fuel : Nat) (a b : ι) : Option (World ι ItemType) :=
  ((w.lists a).append fuel w.store (w.lists b)).map (w.put a)

/-- The values of a list. -/
def values (w : World ι ItemType) (i : ι) : Option (List ItemType) :=
  (w.lists i).printList w.store

/-- No pointer of a list or a node refers to a deleted node. -/
def NoDangling (w : World ι ItemType) : Prop :=
  (∀ i a, (w.lists i).head = some a → w.store.cell? a ≠ none) ∧
    ∀ a b node, w.store.cell? a = some node → node.next = some b → w.store.cell? b ≠ none

/-- After `a = b` the list `a` has the values that `b` had, `b` still has them, and no pointer
dangles. -/
def Assigns (w : World ι ItemType) (a b : ι) : Prop :=
  ∃ w', w.assign a b = some w' ∧ w'.values a = w.values b ∧ w'.values b = w.values b ∧
    w'.NoDangling

/-- After `a.swap(b)` the values are exchanged, and no pointer dangles. -/
def Swaps (w : World ι ItemType) (a b : ι) : Prop :=
  ∃ w', w.swap a b = some w' ∧ w'.values a = w.values b ∧ w'.values b = w.values a ∧
    w'.NoDangling

/-- `a.append(b)` ends with the values of both in `a`, and another list `b` is as it was. -/
def Appends (w : World ι ItemType) (a b : ι) : Prop :=
  ∃ fuel w', w.append fuel a b = some w' ∧
    w'.values a = (w.values a).bind (fun old => (w.values b).map (old ++ ·)) ∧
    (a ≠ b → w'.values b = w.values b)

/-- The worlds whose lists were built by insertions. -/
inductive Built [LinearOrder ItemType] : World ι ItemType → Prop where
  | start (choices : List Nat) : Built (start choices)
  | insertToFront {w : World ι ItemType} (i : ι) (val : ItemType) (h : Built w) :
      Built (w.put i ((w.lists i).insertToFront w.store val))
  | insertToRear {w : World ι ItemType} (i : ι) (val : ItemType)
      {result : LinkedList × Store (Node ItemType)} (h : Built w)
      (hresult : (w.lists i).insertToRear w.store val = some result) : Built (w.put i result)
  | addItem {w : World ι ItemType} (i : ι) (val : ItemType) (fuel : Nat)
      {result : LinkedList × Store (Node ItemType)} (h : Built w)
      (hresult : (w.lists i).addItem fuel w.store val = some result) : Built (w.put i result)

end World

end Coursework.LinkedLists
