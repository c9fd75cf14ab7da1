import Coursework.Heap.Store

/-!
# Null-terminated doubly linked lists

A segment is a list of allocated cells in which every `next` pointer leads to the next cell of
the list and every `previous` pointer back, with given pointers at both ends. Segments are taken
apart and put together with `segment_append`; `Segment.relink_last` and `Segment.relink_first`
change the pointers at their ends.
Vocabulary and scope: `Coursework.Heap.Store`.
-/

namespace Coursework.Heap

/-- A node of a doubly linked list. -/
structure ListNode (α : Type) where
  value : α
  next : Ptr
  previous : Ptr
  deriving DecidableEq

variable {α : Type}

/-- Addresses with the values stored there. -/
abbrev Nodes (α : Type) := List (Nat × α)

/-- The addresses of some nodes. -/
def Nodes.addresses (nodes : Nodes α) : List Nat :=
  nodes.map Prod.fst

/-- The values of some nodes. -/
def Nodes.values (nodes : Nodes α) : List α :=
  nodes.map Prod.snd

/-- The address of the first node, and `succ` when there is none. -/
def first (succ : Ptr) : Nodes α → Ptr
  | [] => succ
  | node :: _ => some node.1

/-- The address of the last node, and `prev` when there is none. -/
def last (prev : Ptr) : Nodes α → Ptr
  | [] => prev
  | node :: nodes => last (some node.1) nodes

/-- The nodes are allocated and linked in this order, between `prev` and `succ`. -/
def Segment (s : Store (ListNode α)) (prev : Ptr) : Nodes α → Ptr → Prop
  | [], _ => True
  | node :: nodes, succ =>
      s.cell? node.1 = some ⟨node.2, first succ nodes, prev⟩ ∧ Segment s (some node.1) nodes succ

@[simp] theorem addresses_nil : Nodes.addresses ([] : Nodes α) = [] := rfl

@[simp] theorem addresses_cons (node : Nat × α) (nodes : Nodes α) :
    Nodes.addresses (node :: nodes) = node.1 :: Nodes.addresses nodes := rfl

@[simp] theorem addresses_append (front back : Nodes α) :
    Nodes.addresses (front ++ back) = Nodes.addresses front ++ Nodes.addresses back :=
  List.map_append

@[simp] theorem values_nil : Nodes.values ([] : Nodes α) = [] := rfl

@[simp] theorem values_cons (node : Nat × α) (nodes : Nodes α) :
    Nodes.values (node :: nodes) = node.2 :: Nodes.values nodes := rfl

@[simp] theorem values_append (front back : Nodes α) :
    Nodes.values (front ++ back) = Nodes.values front ++ Nodes.values back :=
  List.map_append

@[simp] theorem first_nil (succ : Ptr) : first succ ([] : Nodes α) = succ := rfl

@[simp] theorem first_cons (succ : Ptr) (node : Nat × α) (nodes : Nodes α) :
    first succ (node :: nodes) = some node.1 := rfl

@[simp] theorem last_nil (prev : Ptr) : last prev ([] : Nodes α) = prev := rfl

@[simp] theorem last_cons (prev : Ptr) (node : Nat × α) (nodes : Nodes α) :
    last prev (node :: nodes) = last (some node.1) nodes := rfl

@[simp] theorem last_concat (prev : Ptr) (nodes : Nodes α) (node : Nat × α) :
    last prev (nodes ++ [node]) = some node.1 := by
  induction nodes generalizing prev with
  | nil => rfl
  | cons head nodes ih => exact ih (some head.1)

@[simp] theorem last_append (prev : Ptr) (front back : Nodes α) :
    last prev (front ++ back) = last (last prev front) back := by
  induction front generalizing prev with
  | nil => rfl
  | cons node front ih => exact ih (some node.1)

@[simp] theorem first_append (succ : Ptr) (front back : Nodes α) :
    first succ (front ++ back) = first (first succ back) front := by
  cases front <;> rfl

/-- Nodes that are there have a first one. -/
theorem exists_first (succ : Ptr) (front : Nodes α) (node : Nat × α) (back : Nodes α) :
    ∃ a, first succ (front ++ node :: back) = some a := by
  cases front with
  | nil => exact ⟨node.1, rfl⟩
  | cons head front => exact ⟨head.1, rfl⟩

/-- They also have a last one, behind some others. -/
theorem exists_last (prev : Ptr) (node : Nat × α) (nodes : Nodes α) :
    ∃ front node', node :: nodes = front ++ [node'] ∧
      last prev (node :: nodes) = some node'.1 := by
  obtain ⟨front, node', hsplit⟩ :=
    (List.eq_nil_or_concat' (node :: nodes)).resolve_left (List.cons_ne_nil _ _)
  exact ⟨front, node', hsplit, hsplit ▸ last_concat prev front node'⟩

variable {s s' : Store (ListNode α)} {prev succ : Ptr} {nodes front back : Nodes α}

@[simp] theorem segment_nil : Segment s prev ([] : Nodes α) succ := trivial

@[simp] theorem segment_cons {node : Nat × α} :
    Segment s prev (node :: nodes) succ ↔
      s.cell? node.1 = some ⟨node.2, first succ nodes, prev⟩ ∧
        Segment s (some node.1) nodes succ := Iff.rfl

/-- A segment of two parts. -/
theorem segment_append :
    Segment s prev (front ++ back) succ ↔
      Segment s prev front (first succ back) ∧ Segment s (last prev front) back succ := by
  induction front generalizing prev with
  | nil => simp
  | cons node front ih => simp [ih, and_assoc]

/-- Two nodes of a chain of distinct nodes differ from each other and from the nodes around
them. -/
theorem distinct_ends {x y : Nat × α} (mid : Nodes α)
    (h : Nodes.addresses (front ++ [x] ++ (mid ++ y :: back)) |>.Nodup) :
    x.1 ≠ y.1 ∧ (∀ a ∈ front.addresses, a ≠ x.1 ∧ a ≠ y.1) ∧
      ∀ a ∈ back.addresses, a ≠ x.1 ∧ a ≠ y.1 := by
  simp only [addresses_append, addresses_cons, List.append_assoc,
    List.singleton_append, List.nodup_append, List.nodup_cons, List.mem_append, List.mem_cons,
    not_or] at h
  obtain ⟨-, ⟨⟨-, hxy, hxback⟩, -, ⟨hyback, -⟩, -⟩, hfront⟩ := h
  refine ⟨hxy, fun a ha => ⟨hfront a ha _ (.inl rfl), hfront a ha _ (.inr (.inr (.inl rfl)))⟩,
    fun a ha => ⟨fun heq => hxback (heq ▸ ha), fun heq => hyback (heq ▸ ha)⟩⟩

namespace Segment

/-- The nodes of a segment are allocated. -/
theorem allocated (h : Segment s prev nodes succ) :
    ∀ a ∈ nodes.addresses, s.cell? a ≠ none := by
  induction nodes generalizing prev with
  | nil => simp
  | cons node nodes ih =>
      obtain ⟨hcell, hrest⟩ := h
      rw [addresses_cons, List.forall_mem_cons]
      exact ⟨by simp [hcell], ih hrest⟩

/-- Only the cells of a segment matter. -/
theorem frame (h : Segment s prev nodes succ)
    (hcells : ∀ a ∈ nodes.addresses, s'.cell? a = s.cell? a) : Segment s' prev nodes succ := by
  induction nodes generalizing prev with
  | nil => trivial
  | cons node nodes ih =>
      rw [addresses_cons, List.forall_mem_cons] at hcells
      exact ⟨hcells.1.trans h.1, ih h.2 hcells.2⟩

/-- Write the `next` pointer of the last node. -/
theorem relink_last {node : Nat × α} {succ' : Ptr} (h : Segment s prev (front ++ [node]) succ)
    (hlast : s'.cell? node.1 = some ⟨node.2, succ', last prev front⟩)
    (hcells : ∀ a ∈ front.addresses, s'.cell? a = s.cell? a) :
    Segment s' prev (front ++ [node]) succ' := by
  rw [segment_append] at h ⊢
  exact ⟨h.1.frame hcells, hlast, trivial⟩

/-- Write the `previous` pointer of the first node. -/
theorem relink_first {node : Nat × α} {prev' : Ptr} (h : Segment s prev (node :: back) succ)
    (hfirst : s'.cell? node.1 = some ⟨node.2, first succ back, prev'⟩)
    (hcells : ∀ a ∈ back.addresses, s'.cell? a = s.cell? a) :
    Segment s' prev' (node :: back) succ :=
  ⟨hfirst, h.2.frame hcells⟩

/-- Put other nodes between two nodes `x` and `y`. -/
theorem splice {x y : Nat × α} (mid mid' : Nodes α)
    (h : Segment s prev (front ++ [x] ++ (mid ++ y :: back)) succ)
    (hx : s'.cell? x.1 = (s.cell? x.1).map fun c => { c with next := first (some y.1) mid' })
    (hy : s'.cell? y.1 = (s.cell? y.1).map fun c => { c with previous := last (some x.1) mid' })
    (hfront : ∀ a ∈ front.addresses, s'.cell? a = s.cell? a)
    (hback : ∀ a ∈ back.addresses, s'.cell? a = s.cell? a)
    (hmid : Segment s' (some x.1) mid' (some y.1)) :
    Segment s' prev (front ++ [x] ++ (mid' ++ y :: back)) succ := by
  obtain ⟨hleft, hright⟩ := segment_append.1 h
  rw [last_concat] at hright
  obtain ⟨-, hright⟩ := segment_append.1 hright
  obtain ⟨-, hxcell, -⟩ := segment_append.1 hleft
  refine segment_append.2 ⟨?_, ?_⟩
  · rw [first_append]
    exact hleft.relink_last (by rw [hx, hxcell]; rfl) hfront
  · rw [last_concat]
    exact segment_append.2 ⟨hmid, hright.relink_first (by rw [hy, hright.1]; rfl) hback⟩

/-- A segment of distinct nodes is shorter than the bound of the store. -/
theorem length_le_limit (h : Segment s prev nodes succ) (hnodup : nodes.addresses.Nodup) :
    nodes.length ≤ s.limit := by
  simpa [Nodes.addresses] using s.length_le_limit hnodup h.allocated

end Segment

end Coursework.Heap
