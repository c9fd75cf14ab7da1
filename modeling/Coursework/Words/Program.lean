import Coursework.Heap.Tree
import Coursework.Roster.Sheet
import Coursework.Text.Format

/-!
# The word tree

`WordTree.cpp` on a store of nodes. Every access to a member of a node is a checked load
or write, so `none` is an access through a null pointer or to a deleted node, a division by
zero, or a loop or recursion that does not end: one that goes deeper than the store has addresses
comes to a node twice. Counts are not bounded here.
Vocabulary and scope: `Coursework.Heap.Tree`; a string is a `StdString`.
-/

namespace Coursework.Words

open Heap Roster Stdio

/-- The word of a node and its count. -/
structure Entry where
  data : StdString
  count : Int
  deriving DecidableEq

/-- `struct WordNode`. -/
abbrev WordNode := TreeNode Entry

/-- The data member of the class. -/
structure WordTree where
  root : Ptr
  deriving DecidableEq

namespace WordTree

/-- The default constructor. -/
def new : WordTree := ⟨none⟩

/-- `m_count++` for the node behind a pointer. -/
def increment (s : Store WordNode) (cur : Nat) : Option (Store WordNode) :=
  s.modify (some cur) fun node => { node with value.count := node.value.count + 1 }

/-- The loop of `add`. -/
def addFrom (v : StdString) (count : Int) (s : Store WordNode) : Nat → Ptr → Option (Store WordNode)
  | 0, _ => none
  | _ + 1, none => none
  | fuel + 1, some cur => do
      let node ← s.cell? cur
      if v = node.value.data then increment s cur
      else if v < node.value.data then
        if node.left = none then
          (s.new ⟨⟨v, count⟩, none, none⟩).modify (some cur) fun node =>
            { node with left := some s.fresh }
        else addFrom v count s fuel node.left
      else if v > node.value.data then
        if node.right = none then
          (s.new ⟨⟨v, count⟩, none, none⟩).modify (some cur) fun node =>
            { node with right := some s.fresh }
        else addFrom v count s fuel node.right
      else addFrom v count s fuel (some cur)

/-- `add`. -/
def add (tree : WordTree) (s : Store WordNode) (v : StdString) (count : Int) :
    Option (WordTree × Store WordNode) :=
  match tree.root with
  | none => some (⟨some s.fresh⟩, s.new ⟨⟨v, count⟩, none, none⟩)
  | some root => do
      let node ← s.cell? root
      if node.value.data = v then
        let s ← increment s root
        some (tree, s)
      else do
        let s ← addFrom v count s (s.limit + 1) (some root)
        some (tree, s)

/-- The call `add(v)` with the default count. -/
def addOne (tree : WordTree) (s : Store WordNode) (v : StdString) :
    Option (WordTree × Store WordNode) :=
  tree.add s v 1

/-- What `distinctWordsAux` does at a node. -/
def countDistinct (count : Int) (entry : Entry) : Option Int :=
  if entry.count = 0 then none else some (count + entry.count.tdiv entry.count)

/-- `distinctWords`, with the traversal of `distinctWordsAux`. -/
def distinctWords (tree : WordTree) (s : Store WordNode) : Option Int :=
  inOrder (fun _ => s) countDistinct (s.limit + 1) tree.root 0

/-- What `totalWordsAux` does at a node. -/
def countTotal (totalCount : Int) (entry : Entry) : Option Int :=
  some (totalCount + entry.count)

/-- `totalWords`, with the traversal of `totalWordsAux`. -/
def totalWords (tree : WordTree) (s : Store WordNode) : Option Int :=
  inOrder (fun _ => s) countTotal (s.limit + 1) tree.root 0

/-- The bytes of a text. -/
def bytes (text : List Char) : StdString :=
  text.map fun c => ⟨c.toNat % 256, Nat.mod_lt _ (Nat.zero_lt_succ 255)⟩

/-- The line that is printed for a word and its count. -/
def line (entry : Entry) : StdString :=
  entry.data ++ bytes [' '] ++ bytes (decimal entry.count) ++ bytes ['\n']

/-- What `printInOrder` does at a node. -/
def printNode (out : StdString) (entry : Entry) : Option StdString :=
  some (out ++ line entry)

/-- `operator<<`, with the traversal of `printInOrder`. -/
def print (out : StdString) (tree : WordTree) (s : Store WordNode) : Option StdString :=
  inOrder (fun _ => s) printNode (s.limit + 1) tree.root out

/-- One call of `add` after another. -/
def addWords (tree : WordTree) (s : Store WordNode) :
    List StdString → Option (WordTree × Store WordNode)
  | [] => some (tree, s)
  | v :: words => do
      let (tree, s) ← tree.addOne s v
      tree.addWords s words

/-- The words and counts in the order of `printInOrder`. -/
def listing (tree : WordTree) (s : Store WordNode) : Option (List Entry) :=
  inOrder (fun _ => s) (fun entries entry => some (entries ++ [entry])) (s.limit + 1) tree.root []

/-- What `copyAux` does at a node: it adds the entry to a tree, which is in the same store. -/
def addNode (state : WordTree × Store WordNode) (entry : Entry) :
    Option (WordTree × Store WordNode) :=
  state.1.add state.2 entry.data entry.count

/-- `copyAux` from the node `cur`, with the tree `src` that it adds to. -/
def copyAux (cur : Ptr) (src : WordTree) (s : Store WordNode) :
    Option (WordTree × Store WordNode) :=
  inOrder Prod.snd addNode (s.limit + 1) cur (src, s)

/-- The copy constructor. -/
def copy (rhs : WordTree) (s : Store WordNode) : Option (WordTree × Store WordNode) :=
  if rhs.root = none then some (new, s)
  else copyAux rhs.root new s

/-- `destructorAux`, with the addresses that it frees in this order. -/
def destructorAux : Nat → (cur : Ptr) → Store WordNode → Option (List Nat × Store WordNode)
  | 0, _, _ => none
  | _ + 1, none, s => some ([], s)
  | fuel + 1, some cur, s => do
      let node ← s.cell? cur
      let (freedLeft, s) ← destructorAux fuel node.left s
      let node ← s.cell? cur
      let (freedRight, s) ← destructorAux fuel node.right s
      let s ← s.delete (some cur)
      some (freedLeft ++ freedRight ++ [cur], s)

end WordTree

/-! ## Programs -/

/-- The word trees of a program, each under its name, and the store with their nodes. -/
structure World (ι : Type) where
  store : Store WordNode
  trees : ι → WordTree

namespace World

variable {ι : Type}

/-- Every tree was default-constructed. -/
def start (choices : List Nat) : World ι := ⟨.empty choices, fun _ => .new⟩

/-- The words of a tree with their counts, in the order in which they are printed. -/
def listing (w : World ι) (i : ι) : Option (List Entry) :=
  (w.trees i).listing w.store

/-- `operator<<`. -/
def print (w : World ι) (out : StdString) (i : ι) : Option StdString :=
  (w.trees i).print out w.store

/-- `distinctWords`. -/
def distinctWords (w : World ι) (i : ι) : Option Int :=
  (w.trees i).distinctWords w.store

/-- `totalWords`. -/
def totalWords (w : World ι) (i : ι) : Option Int :=
  (w.trees i).totalWords w.store

variable [DecidableEq ι]

/-- A tree and the store were changed. -/
def put (w : World ι) (i : ι) (result : WordTree × Store WordNode) : World ι :=
  ⟨result.2, Function.update w.trees i result.1⟩

/-- The call `add(v)` with the default count. -/
def add (w : World ι) (i : ι) (v : StdString) : Option (World ι) :=
  ((w.trees i).addOne w.store v).map (w.put i)

/-- One call of `add` after another, each for one of the trees. -/
def addAll (w : World ι) : List (ι × StdString) → Option (World ι)
  | [] => some w
  | (i, v) :: adds => do
      let w ← w.add i v
      w.addAll adds

/-- The tree `i` is constructed as a copy of the tree `j`. -/
def copy (w : World ι) (i j : ι) : Option (World ι) :=
  ((w.trees j).copy w.store).map (w.put i)

/-- The destructor, with the addresses that it frees. -/
def destroy (w : World ι) (i : ι) : Option (List Nat × World ι) := do
  let (freed, s) ← WordTree.destructorAux (w.store.limit + 1) (w.trees i).root w.store
  some (freed, w.put i (.new, s))

/-- `operator=` with the addresses that it frees. The root of the right-hand side is read when that
of the left-hand side has been reset; the two may be one object. -/
def assign (w : World ι) (i j : ι) : Option (List Nat × World ι) := do
  let (freed, s) ← WordTree.destructorAux (w.store.limit + 1) (w.trees i).root w.store
  let w := w.put i (.new, s)
  let cur := (w.trees j).root
  let result ← WordTree.copyAux cur (w.trees i) w.store
  some (freed, w.put i result)

/-- After `x = y` the tree `x` lists what `y` listed, `y` still lists it, and the nodes that `x` had
were each freed once. -/
def Assigns (w : World ι) (x y : ι) : Prop :=
  ∃ freed w', w.assign x y = some (freed, w') ∧ w'.listing x = w.listing y ∧
    w'.listing y = w.listing y ∧ freed.Nodup ∧
    ∀ a, a ∈ freed ↔ Below w.store (w.trees x).root a

/-- The copy constructor builds in `i` a tree with the listing and the numbers of words of `j`. It
changes no cell that was allocated. After any further additions, an addition to one tree changes the
listing of no other. -/
def Copies (w : World ι) (i j : ι) : Prop :=
  ∃ w', w.copy i j = some w' ∧
    (∃ entries, w.listing j = some entries ∧ w'.listing i = some entries ∧
      w'.listing j = some entries) ∧
    (∃ distinct total, w.distinctWords j = some distinct ∧ w.totalWords j = some total ∧
      w'.distinctWords i = some distinct ∧ w'.totalWords i = some total) ∧
    (∀ out, w'.print out i = w.print out j ∧ w'.print out j = w.print out j) ∧
    (∀ a, w.store.cell? a ≠ none → w'.store.cell? a = w.store.cell? a) ∧
    ∀ adds, ∃ w₁, w'.addAll adds = some w₁ ∧ ∀ k v, ∃ w₂, w₁.add k v = some w₂ ∧
      ∀ l, l ≠ k → w₂.listing l = w₁.listing l

/-- The worlds that a program reaches. -/
inductive Reached : World ι → Prop where
  | start (choices : List Nat) : Reached (start choices)
  | add {w w' : World ι} (i : ι) (v : StdString) (h : Reached w) (hadd : w.add i v = some w') :
      Reached w'
  | copy {w w' : World ι} (i j : ι) (h : Reached w) (hcopy : w.copy i j = some w') : Reached w'
  | assign {w w' : World ι} {freed : List Nat} (i j : ι) (h : Reached w)
      (hassign : w.assign i j = some (freed, w')) : Reached w'
  | destroy {w w' : World ι} {freed : List Nat} (i : ι) (h : Reached w)
      (hdestroy : w.destroy i = some (freed, w')) : Reached w'

end World

end Coursework.Words
