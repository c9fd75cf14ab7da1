import Coursework.Heap.Chain
import Mathlib.Data.Tree.Basic
import Mathlib.Data.List.Pairwise

/-!
# LinkedTree binary trees

A tree in a store is a `BinaryTree` of addresses and values whose nodes are allocated and
point to the nodes below them. Its nodes are listed in order (`nodes`). `inOrder` is the recursive
traversal, over a state that may hold the store itself, and `inOrder_eq` says that it is a
fold over the listed nodes.
Vocabulary and scope: `Coursework.Heap.Store`, and `Nodes` of `Coursework.Heap.Chain`.
-/

namespace Coursework.Heap

/-- A node of a binary tree. -/
structure TreeNode (α : Type) where
  value : α
  left : Ptr
  right : Ptr
  deriving DecidableEq

variable {α : Type}

/-- A tree of addresses with the values stored there. -/
abbrev NodeTree (α : Type) := BinaryTree (Nat × α)

/-- The address of the top node. -/
def top : NodeTree α → Ptr
  | .nil => none
  | .node node _ _ => some node.1

/-- The nodes in order. -/
def nodes : NodeTree α → Nodes α
  | .nil => []
  | .node node left right => nodes left ++ node :: nodes right

/-- The nodes are allocated and linked as in the tree. -/
def LinkedTree (s : Store (TreeNode α)) : NodeTree α → Prop
  | .nil => True
  | .node node left right =>
      s.cell? node.1 = some ⟨node.2, top left, top right⟩ ∧ LinkedTree s left ∧ LinkedTree s right

/-- The node at the address is in the tree below the pointer. -/
inductive Below (s : Store (TreeNode α)) : Ptr → Nat → Prop where
  | here {a : Nat} (h : s.cell? a ≠ none) : Below s (some a) a
  | left {a b : Nat} {node : TreeNode α} (hcell : s.cell? a = some node)
      (h : Below s node.left b) : Below s (some a) b
  | right {a b : Nat} {node : TreeNode α} (hcell : s.cell? a = some node)
      (h : Below s node.right b) : Below s (some a) b

/-- The traversal from a pointer: the nodes on the left, the node, and the nodes on the right.
The state holds the store, and `visit` does what is done at a node. -/
def inOrder {σ : Type} (heap : σ → Store (TreeNode α)) (visit : σ → α → Option σ) :
    Nat → Ptr → σ → Option σ
  | 0, _, _ => none
  | _ + 1, none, state => some state
  | fuel + 1, some a, state => do
      let node ← (heap state).cell? a
      let state ← inOrder heap visit fuel node.left state
      let node ← (heap state).cell? a
      let state ← visit state node.value
      let node ← (heap state).cell? a
      inOrder heap visit fuel node.right state

@[simp] theorem top_nil : top (.nil : NodeTree α) = none := rfl

@[simp] theorem top_node (node : Nat × α) (left right : NodeTree α) :
    top (.node node left right) = some node.1 := rfl

@[simp] theorem nodes_nil : nodes (.nil : NodeTree α) = [] := rfl

@[simp] theorem nodes_node (node : Nat × α) (left right : NodeTree α) :
    nodes (.node node left right) = nodes left ++ node :: nodes right := rfl

/-- Only the empty tree has no top node. -/
theorem top_eq_none {tree : NodeTree α} : top tree = none ↔ tree = .nil := by
  cases tree <;> simp [top]

/-- A new node that is linked to an old one changes no other cell. -/
theorem cell?_set_new {s : Store (TreeNode α)} {x b : Nat} {child parent : TreeNode α}
    (hne : b ≠ x) (halloc : s.cell? b ≠ none) :
    ((s.new child).set x parent).cell? b = s.cell? b := by
  have hfresh : b ≠ s.fresh := fun heq => halloc (heq ▸ s.cell?_fresh)
  rw [Store.cell?_set, if_neg hne, Store.cell?_new, if_neg hfresh]

variable {s s' : Store (TreeNode α)} {tree left right : NodeTree α} {node : Nat × α}

/-- The nodes of a linked tree are allocated. -/
theorem LinkedTree.allocated (h : LinkedTree s tree) :
    ∀ a ∈ (nodes tree).addresses, s.cell? a ≠ none := by
  induction tree with
  | nil => simp
  | node node left right ihLeft ihRight =>
      obtain ⟨hcell, hleft, hright⟩ := h
      intro a ha
      rw [nodes_node, addresses_append, addresses_cons, List.mem_append, List.mem_cons] at ha
      rcases ha with ha | rfl | ha
      · exact ihLeft hleft a ha
      · rw [hcell]
        exact Option.some_ne_none _
      · exact ihRight hright a ha

/-- Only the cells of a tree matter. -/
theorem LinkedTree.frame (h : LinkedTree s tree)
    (hcells : ∀ a ∈ (nodes tree).addresses, s'.cell? a = s.cell? a) : LinkedTree s' tree := by
  induction tree with
  | nil => trivial
  | node node left right ihLeft ihRight =>
      obtain ⟨hcell, hleft, hright⟩ := h
      rw [nodes_node, addresses_append, addresses_cons] at hcells
      refine ⟨(hcells _ (by simp)).trans hcell, ihLeft hleft fun a ha => hcells a (by simp [ha]),
        ihRight hright fun a ha => hcells a (by simp [ha])⟩

/-- The nodes below the top of a linked tree are its nodes. -/
theorem LinkedTree.below_iff (h : LinkedTree s tree) {b : Nat} :
    Below s (top tree) b ↔ b ∈ (nodes tree).addresses := by
  constructor
  · intro hbelow
    generalize hp : top tree = p at hbelow
    induction hbelow generalizing tree with
    | here _ =>
        cases tree with
        | nil => cases hp
        | node node left right =>
            cases hp
            simp
    | left hcell _ ih =>
        cases tree with
        | nil => cases hp
        | node node left right =>
            cases hp
            rw [h.1] at hcell
            cases hcell
            simp [ih h.2.1 rfl]
    | right hcell _ ih =>
        cases tree with
        | nil => cases hp
        | node node left right =>
            cases hp
            rw [h.1] at hcell
            cases hcell
            simp [ih h.2.2 rfl]
  · intro hmem
    induction tree with
    | nil => exact absurd hmem List.not_mem_nil
    | node node left right ihLeft ihRight =>
        obtain ⟨hcell, hleft, hright⟩ := h
        rw [nodes_node, addresses_append, addresses_cons, List.mem_append, List.mem_cons] at hmem
        rcases hmem with hmem | rfl | hmem
        · exact .left hcell (ihLeft hleft hmem)
        · exact .here (hcell ▸ Option.some_ne_none _)
        · exact .right hcell (ihRight hright hmem)

/-- A tree of distinct nodes has fewer nodes than the bound of the store. -/
theorem LinkedTree.length_le_limit (h : LinkedTree s tree) (hnodup : (nodes tree).addresses.Nodup) :
    (nodes tree).length ≤ s.limit := by
  simpa [Nodes.addresses] using s.length_le_limit hnodup h.allocated

/-- The parts of a tree of distinct nodes are distinct. -/
theorem nodup_parts (h : (nodes (.node node left right)).addresses.Nodup) :
    ((nodes left).addresses.Nodup ∧ (nodes right).addresses.Nodup) ∧
      (node.1 ∉ (nodes left).addresses ∧ node.1 ∉ (nodes right).addresses) ∧
      ∀ a ∈ (nodes left).addresses, a ∉ (nodes right).addresses := by
  rw [nodes_node, addresses_append, addresses_cons, List.nodup_append, List.nodup_cons] at h
  obtain ⟨hleft, ⟨hnode, hright⟩, hdisj⟩ := h
  refine ⟨⟨hleft, hright⟩, ⟨fun hmem => hdisj _ hmem _ List.mem_cons_self rfl, hnode⟩, ?_⟩
  exact fun a ha ha' => hdisj a ha a (List.mem_cons_of_mem _ ha') rfl

/-- What every visit keeps is kept by all of them. -/
theorem kept_of_foldlM {σ : Type} {visit : σ → α → Option σ} {kept : σ → Prop}
    (hkept : ∀ state value state', kept state → visit state value = some state' → kept state')
    (values : List α) {state state' : σ} (hstate : kept state)
    (h : values.foldlM visit state = some state') : kept state' := by
  induction values generalizing state with
  | nil =>
      cases h
      exact hstate
  | cons value values ih =>
      rw [List.foldlM_cons] at h
      obtain ⟨next, hnext, hrest⟩ := Option.bind_eq_some_iff.1 h
      exact ih (hkept _ _ _ hstate hnext) hrest

/-- The traversal of a linked tree visits its values in order, as long as the visits keep the
tree. -/
theorem inOrder_eq {σ : Type} {heap : σ → Store (TreeNode α)} {visit : σ → α → Option σ}
    {tree : NodeTree α} (kept : σ → Prop)
    (hkept : ∀ state value state', kept state → visit state value = some state' → kept state')
    (htree : ∀ state, kept state → LinkedTree (heap state) tree) {fuel : Nat}
    (hfuel : (nodes tree).length < fuel) {state : σ} (hstate : kept state) :
    inOrder heap visit fuel (top tree) state = (nodes tree).values.foldlM visit state := by
  induction tree generalizing fuel state with
  | nil =>
      obtain ⟨fuel, rfl⟩ := Nat.exists_eq_add_one_of_ne_zero (Nat.ne_zero_of_lt hfuel)
      rfl
  | node node left right ihLeft ihRight =>
      obtain ⟨fuel, rfl⟩ := Nat.exists_eq_add_one_of_ne_zero (Nat.ne_zero_of_lt hfuel)
      rw [nodes_node, List.length_append, List.length_cons] at hfuel
      have hleft := ihLeft (fun state h => (htree state h).2.1) (show (nodes left).length < fuel by
        omega) hstate
      rw [nodes_node, values_append, values_cons, List.foldlM_append, top_node, inOrder,
        (htree state hstate).1]
      simp only [Option.bind_eq_bind, Option.bind_some, hleft, List.foldlM_cons]
      cases hvisits : (nodes left).values.foldlM visit state with
      | none => rfl
      | some middle =>
          have hmiddle := kept_of_foldlM hkept _ hstate hvisits
          simp only [Option.bind_some, (htree middle hmiddle).1]
          cases hvisit : visit middle node.2 with
          | none => rfl
          | some next =>
              have hnext := hkept _ _ _ hmiddle hvisit
              simp only [Option.bind_some, (htree next hnext).1]
              exact ihRight (fun state h => (htree state h).2.2) (by omega) hnext

end Coursework.Heap
