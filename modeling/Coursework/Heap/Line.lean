import Coursework.Heap.Chain

/-!
# Singly linked lists

A line is a list of allocated cells in which every pointer leads to the next cell of the list, and
the last one to a given address.
Vocabulary and scope: `Coursework.Heap.Store`, and `Nodes` of `Coursework.Heap.Chain`.
-/

namespace Coursework.Heap

/-- A node of a singly linked list. -/
structure LineNode (α : Type) where
  value : α
  next : Ptr
  deriving DecidableEq

variable {α : Type}

/-- The nodes are allocated and linked in this order, up to `succ`. -/
def Line (s : Store (LineNode α)) : Nodes α → Ptr → Prop
  | [], _ => True
  | node :: nodes, succ => s.cell? node.1 = some ⟨node.2, first succ nodes⟩ ∧ Line s nodes succ

variable {s s' : Store (LineNode α)} {succ : Ptr} {nodes front back : Nodes α} {node : Nat × α}

/-- A line of two parts. -/
theorem line_append :
    Line s (front ++ back) succ ↔ Line s front (first succ back) ∧ Line s back succ := by
  induction front with
  | nil => simp [Line]
  | cons node front ih => simp [Line, ih, and_assoc]

namespace Line

/-- The nodes of a line are allocated. -/
theorem allocated (h : Line s nodes succ) : ∀ a ∈ nodes.addresses, s.cell? a ≠ none := by
  induction nodes with
  | nil => simp
  | cons node nodes ih =>
      obtain ⟨hcell, hrest⟩ := h
      rw [addresses_cons, List.forall_mem_cons]
      exact ⟨by simp [hcell], ih hrest⟩

/-- Only the cells of a line matter. -/
theorem frame (h : Line s nodes succ)
    (hcells : ∀ a ∈ nodes.addresses, s'.cell? a = s.cell? a) : Line s' nodes succ := by
  induction nodes with
  | nil => trivial
  | cons node nodes ih =>
      rw [addresses_cons, List.forall_mem_cons] at hcells
      exact ⟨hcells.1.trans h.1, ih h.2 hcells.2⟩

/-- A line of distinct nodes is shorter than the bound of the store. -/
theorem length_le_limit (h : Line s nodes succ) (hnodup : nodes.addresses.Nodup) :
    nodes.length ≤ s.limit := by
  simpa [Nodes.addresses] using s.length_le_limit hnodup h.allocated

/-- Every pointer of a line leads to its next node or to `succ`. -/
theorem next_mem (h : Line s nodes succ) {a : Nat} (ha : a ∈ nodes.addresses) {cell : LineNode α}
    (hcell : s.cell? a = some cell) {b : Nat} (hb : cell.next = some b) :
    b ∈ nodes.addresses ∨ succ = some b := by
  induction nodes with
  | nil => exact absurd ha List.not_mem_nil
  | cons node nodes ih =>
      rw [addresses_cons, List.mem_cons] at ha ⊢
      rcases ha with rfl | ha
      · rw [h.1] at hcell
        cases hcell
        cases nodes with
        | nil => exact .inr hb
        | cons next nodes =>
            cases hb
            exact .inl (.inr List.mem_cons_self)
      · exact (ih h.2 ha).imp_left .inr

/-- The cell of one node is written: its value and the pointer to the nodes behind it. -/
theorem relink {a : Nat} {value : α} (hfront : Line s front (some a)) (hback : Line s back succ)
    (hnodup : Nodes.addresses (front ++ (a, value) :: back) |>.Nodup) :
    Line (s.set a ⟨value, first succ back⟩) (front ++ (a, value) :: back) succ := by
  rw [addresses_append, addresses_cons, List.nodup_append, List.nodup_cons] at hnodup
  obtain ⟨-, ⟨haback, -⟩, hdisj⟩ := hnodup
  refine line_append.2 ⟨hfront.frame fun b hb => ?_, ?_, hback.frame fun b hb => ?_⟩
  · rw [Store.cell?_set, if_neg (hdisj b hb _ List.mem_cons_self)]
  · rw [Store.cell?_set, if_pos rfl]
  · have hne : b ≠ a := fun heq => haback (heq ▸ hb)
    rw [Store.cell?_set, if_neg hne]

end Line

end Coursework.Heap
