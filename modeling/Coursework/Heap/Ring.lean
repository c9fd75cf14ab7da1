import Coursework.Atomic.Program
import Mathlib.Data.List.Cycle

/-!
# Circular doubly linked rings

A ring is a cyclic sequence of distinct nodes in which every `next` pointer has the matching
`prev` pointer. Rings rotate (`Ring.rotate`), so insertion and removal are proved at one
position only: `Ring.link` puts a new node before the first one and `Ring.unlink` takes the first
one out. `Ring.insert` and `Ring.remove` restate both for a ring read from a fixed head.
Vocabulary and scope: `Coursework.Atomic.Program`.
-/

namespace Coursework.Heap

open Atomic (Memory)

/-- The two pointer fields of a node. -/
inductive Cell (α : Type) where
  | prev (node : α)
  | next (node : α)
  deriving DecidableEq

/-- The node a field belongs to. -/
def Cell.node {α : Type} : Cell α → α
  | .prev node => node
  | .next node => node

@[simp] theorem Cell.node_prev {α : Type} (node : α) : (Cell.prev node).node = node := rfl

@[simp] theorem Cell.node_next {α : Type} (node : α) : (Cell.next node).node = node := rfl

variable {α : Type}

/-- The pointer fields of all listed nodes. -/
def cells (nodes : List α) : Set (Cell α) :=
  {field | field.node ∈ nodes}

@[simp] theorem mem_cells {nodes : List α} {field : Cell α} :
    field ∈ cells nodes ↔ field.node ∈ nodes := Iff.rfl

/-- `b` follows `a` and `a` precedes `b`. -/
def Linked (memory : Memory (Cell α) α) (a b : α) : Prop :=
  memory (.next a) = some b ∧ memory (.prev b) = some a

/-- The listed nodes are distinct and linked in this cyclic order. -/
structure Ring (memory : Memory (Cell α) α) (nodes : List α) : Prop where
  nodup : nodes.Nodup
  linked : Cycle.Chain (Linked memory) (nodes : Cycle α)

/-- Follow `next` a number of times. -/
def follow (memory : Memory (Cell α) α) : Nat → α → Option α
  | 0, node => some node
  | steps + 1, node => memory (.next node) >>= follow memory steps

/-- Both fields of a node are allocated. -/
def Allocated (memory : Memory (Cell α) α) (node : α) : Prop :=
  (memory (.prev node)).isSome ∧ (memory (.next node)).isSome

/-- The node before any position of a ring read from `head` is one of its nodes. -/
theorem getLastD_mem (head : α) (front back : List α) :
    front.getLastD head ∈ head :: (front ++ back) := by
  rw [← List.cons_append]
  exact List.mem_append_left back List.getLastD_mem_cons

/-- The node at any position of a ring read from `head` is one of its nodes. -/
theorem headD_mem (head : α) (front back : List α) :
    back.headD head ∈ head :: (front ++ back) := by
  cases back <;> simp

variable {memory : Memory (Cell α) α}

/-- A ring is read as a chain that starts and ends at its head. -/
theorem ring_cons_iff {head : α} {rest : List α} :
    Ring memory (head :: rest) ↔
      (head :: rest).Nodup ∧ List.IsChain (Linked memory) (head :: (rest ++ [head])) :=
  ⟨fun h => ⟨h.nodup, (Cycle.chain_coe_cons _ _ _).1 h.linked⟩,
    fun h => ⟨h.1, (Cycle.chain_coe_cons _ _ _).2 h.2⟩⟩

/-- Changing pointers that lead out of the last node or back into the first one, or that belong
to other nodes, keeps an open chain. -/
theorem chain_frame {other : Memory (Cell α) α} {nodes : List α}
    (hnext : ∀ a ∈ nodes.dropLast, other (.next a) = memory (.next a))
    (hprev : ∀ b ∈ nodes.tail, other (.prev b) = memory (.prev b))
    (h : List.IsChain (Linked memory) nodes) : List.IsChain (Linked other) nodes := by
  induction h with
  | nil => exact .nil
  | singleton => exact .singleton _
  | @cons_cons a b rest hab _ ih =>
      refine .cons_cons ⟨?_, ?_⟩ (ih (fun c hc => hnext c ?_) (fun c hc => hprev c ?_))
      · rw [hnext a (by simp)]
        exact hab.1
      · rw [hprev b (by simp)]
        exact hab.2
      · simp only [List.dropLast_cons_cons, List.mem_cons]
        exact .inr hc
      · exact List.mem_of_mem_tail (by simpa using hc)

/-- A chain extended at its end. -/
theorem chain_concat_iff {nodes : List α} {last : α} (hne : nodes ≠ []) :
    List.IsChain (Linked memory) (nodes ++ [last]) ↔
      List.IsChain (Linked memory) nodes ∧ Linked memory (nodes.getLast hne) last := by
  simp [List.isChain_append, List.getLast?_eq_some_getLast hne]

/-- A chain that does not come back to its first node repeats no node: `prev` leads two equal
nodes back to equal nodes, and so to the first one. -/
theorem nodup_of_chain {head : α} {rest : List α}
    (h : List.IsChain (Linked memory) (head :: rest)) (hhead : head ∉ rest) :
    (head :: rest).Nodup := by
  rw [List.isChain_iff_getElem] at h
  have hne : ∀ i j (hij : i < j) (hj : j < (head :: rest).length),
      (head :: rest)[i] ≠ (head :: rest)[j] := by
    intro i
    induction i with
    | zero =>
        intro j hij hj heq
        obtain ⟨j, rfl⟩ := Nat.exists_eq_add_of_lt hij
        simp only [List.getElem_cons_zero, Nat.zero_add, List.getElem_cons_succ] at heq
        exact hhead (heq ▸ List.getElem_mem _)
    | succ i ih =>
        intro j hij hj heq
        obtain ⟨j, rfl⟩ : ∃ k, j = k + 1 := ⟨j - 1, by omega⟩
        have hprev := (h i (by omega)).2
        rw [heq, (h j hj).2] at hprev
        exact ih j (by omega) (by omega) (Option.some.inj hprev).symm
  refine List.nodup_iff_getElem?_ne_getElem?.2 fun i j hij hj heq => hne i j hij hj ?_
  rw [List.getElem?_eq_getElem (hij.trans hj), List.getElem?_eq_getElem hj] at heq
  exact Option.some.inj heq

namespace Ring

/-- A ring can be read from any of its nodes. -/
theorem rotate (front back : List α) (h : Ring memory (front ++ back)) :
    Ring memory (back ++ front) where
  nodup := List.nodup_append_comm.1 h.nodup
  linked := by
    have heq : ((back ++ front : List α) : Cycle α) = (front ++ back : List α) :=
      Cycle.coe_eq_coe.2 List.isRotated_append
    rw [heq]
    exact h.linked

/-- The chain of a nonempty ring closes from its last node to its first. -/
theorem chain_and_close {nodes : List α} (h : Ring memory nodes) (hne : nodes ≠ []) :
    List.IsChain (Linked memory) nodes ∧
      Linked memory (nodes.getLast hne) (nodes.head hne) := by
  obtain ⟨head, rest, rfl⟩ := List.exists_cons_of_ne_nil hne
  have hchain := (ring_cons_iff.1 h).2
  rw [← List.cons_append, chain_concat_iff (by simp)] at hchain
  exact hchain

/-- A chain of distinct nodes that closes from its last node to its first is a ring. -/
theorem of_chain_and_close {nodes : List α} (hne : nodes ≠ []) (hnodup : nodes.Nodup)
    (hchain : List.IsChain (Linked memory) nodes)
    (hclose : Linked memory (nodes.getLast hne) (nodes.head hne)) : Ring memory nodes := by
  obtain ⟨head, rest, rfl⟩ := List.exists_cons_of_ne_nil hne
  refine ring_cons_iff.2 ⟨hnodup, ?_⟩
  rw [← List.cons_append, chain_concat_iff (by simp)]
  exact ⟨hchain, hclose⟩

/-- A ring depends on the fields of its own nodes only. -/
theorem congr {other : Memory (Cell α) α} {nodes : List α} (h : Ring memory nodes)
    (hagree : Set.EqOn memory other (cells nodes)) : Ring other nodes := by
  rcases eq_or_ne nodes [] with rfl | hne
  · exact ⟨h.nodup, trivial⟩
  · obtain ⟨hchain, hnext, hprev⟩ := h.chain_and_close hne
    refine of_chain_and_close hne h.nodup (chain_frame ?_ ?_ hchain) ⟨?_, ?_⟩
    · exact fun a ha => (hagree (x := .next a) (List.dropLast_subset _ ha)).symm
    · exact fun b hb => (hagree (x := .prev b) (List.mem_of_mem_tail hb)).symm
    · rw [← hagree (List.getLast_mem hne)]
      exact hnext
    · rw [← hagree (List.head_mem hne)]
      exact hprev

/-- The last node of a ring rotated to start at `back`. -/
theorem getLast_rotated (head : α) (front back : List α) :
    (back ++ head :: front).getLast (by simp) = front.getLastD head := by
  rw [List.getLast_append_of_ne_nil (by simp) (by simp), List.getLast_eq_getLastD]

/-- The first node of a ring rotated to start at `back`. -/
theorem head_rotated (head : α) (front back : List α) :
    (back ++ head :: front).head (by simp) = back.headD head := by
  cases back <;> simp

/-- The link at any position of a ring read from `head`. -/
theorem linked_at {head : α} (front back : List α)
    (h : Ring memory (head :: (front ++ back))) :
    Linked memory (front.getLastD head) (back.headD head) := by
  have hrot : Ring memory (back ++ head :: front) :=
    rotate (head :: front) back (by simpa using h)
  have hclose := (hrot.chain_and_close (by simp)).2
  rwa [getLast_rotated, head_rotated] at hclose

/-- The node after the head. -/
theorem next_head {head : α} {rest : List α} (h : Ring memory (head :: rest)) :
    memory (.next head) = some (rest.headD head) :=
  (h.linked_at [] rest).1

/-- The link that leaves a given node. -/
theorem linked_after {head node : α} {front back : List α}
    (h : Ring memory (head :: (front ++ node :: back))) :
    Linked memory node (back.headD head) := by
  have hlink := linked_at (front ++ [node]) back (by simpa using h)
  simpa using hlink

/-- Every node of a ring has a successor on it. -/
theorem exists_next {nodes : List α} {node : α} (h : Ring memory nodes) (hnode : node ∈ nodes) :
    ∃ after ∈ nodes, Linked memory node after := by
  obtain ⟨front, back, rfl⟩ := List.append_of_mem hnode
  have hrot : Ring memory (node :: (back ++ front)) := by simpa using h.rotate front (node :: back)
  refine ⟨(back ++ front).headD node, ?_, hrot.linked_at [] (back ++ front)⟩
  have hmem := headD_mem node [] (back ++ front)
  simp only [List.nil_append, List.mem_cons, List.mem_append] at hmem ⊢
  tauto

/-- Every node of a ring has a predecessor on it. -/
theorem exists_prev {nodes : List α} {node : α} (h : Ring memory nodes) (hnode : node ∈ nodes) :
    ∃ before ∈ nodes, Linked memory before node := by
  obtain ⟨front, back, rfl⟩ := List.append_of_mem hnode
  have hrot : Ring memory (node :: ((back ++ front) ++ [])) := by
    simpa using h.rotate front (node :: back)
  refine ⟨(back ++ front).getLastD node, ?_, hrot.linked_at (back ++ front) []⟩
  have hmem := getLastD_mem node (back ++ front) []
  simp only [List.append_nil, List.mem_cons, List.mem_append] at hmem ⊢
  tauto

/-- `next` does not leave a ring. -/
theorem next_mem {nodes : List α} {a b : α} (h : Ring memory nodes) (ha : a ∈ nodes)
    (hnext : memory (.next a) = some b) : b ∈ nodes := by
  obtain ⟨after, hafter, hlink, -⟩ := h.exists_next ha
  rw [hnext] at hlink
  rwa [Option.some.inj hlink]

/-- `prev` does not leave a ring. -/
theorem prev_mem {nodes : List α} {a b : α} (h : Ring memory nodes) (hb : b ∈ nodes)
    (hprev : memory (.prev b) = some a) : a ∈ nodes := by
  obtain ⟨before, hbefore, -, hlink⟩ := h.exists_prev hb
  rw [hprev] at hlink
  rwa [Option.some.inj hlink]

/-- A chain that starts on a ring stays on it. -/
theorem chain_mem {nodes path : List α} {a : α} (h : Ring memory nodes) (ha : a ∈ nodes)
    (hchain : List.IsChain (Linked memory) (a :: path)) : ∀ b ∈ path, b ∈ nodes := by
  induction path generalizing a with
  | nil => simp
  | cons b path ih =>
      rw [List.isChain_cons_cons] at hchain
      have hb := h.next_mem ha hchain.1.1
      exact List.forall_mem_cons.2 ⟨hb, ih hb hchain.2⟩

/-- On a ring, `prev` is the inverse of `next`. -/
theorem next_iff_prev {nodes : List α} {a b : α} (h : Ring memory nodes) (ha : a ∈ nodes)
    (hb : b ∈ nodes) : memory (.next a) = some b ↔ memory (.prev b) = some a := by
  obtain ⟨after, _, hnext, hback⟩ := h.exists_next ha
  obtain ⟨before, _, hforth, hprev⟩ := h.exists_prev hb
  constructor
  · intro hab
    rw [hab] at hnext
    rwa [Option.some.inj hnext]
  · intro hba
    rw [hba] at hprev
    rwa [Option.some.inj hprev]

/-- Following `next` from the head of a ring visits its nodes in order and comes back. -/
theorem follow_eq {head : α} {rest : List α} (h : Ring memory (head :: rest)) :
    (∀ steps ≤ rest.length, follow memory steps head = (head :: rest)[steps]?) ∧
      follow memory (rest.length + 1) head = some head := by
  have hchain := (ring_cons_iff.1 h).2
  have hwalk : ∀ (nodes : List α) (first : α), List.IsChain (Linked memory) (first :: nodes) →
      ∀ steps ≤ nodes.length, follow memory steps first = (first :: nodes)[steps]? := by
    intro nodes
    induction nodes with
    | nil =>
        intro first _ steps hsteps
        obtain rfl : steps = 0 := by simpa using hsteps
        rfl
    | cons second nodes ih =>
        intro first hfirst steps hsteps
        rw [List.isChain_cons_cons] at hfirst
        cases steps with
        | zero => rfl
        | succ steps =>
            rw [follow, hfirst.1.1]
            simpa using ih second hfirst.2 steps (by simpa using hsteps)
  refine ⟨fun steps hsteps => ?_, ?_⟩
  · rw [hwalk _ _ hchain steps (by simp; omega), ← List.cons_append, List.getElem?_append_left]
    simp only [List.length_cons]
    omega
  · rw [hwalk _ _ hchain _ (by simp)]
    simp

end Ring

variable [DecidableEq α]

/-- The memory after the four assignments that put `node` between `before` and `after`. -/
def link (memory : Memory (Cell α) α) (node before after : α) : Memory (Cell α) α :=
  Function.update (Function.update (Function.update (Function.update memory
    (.prev node) (some before)) (.next node) (some after)) (.next before) (some node))
    (.prev after) (some node)

/-- The memory after the two assignments that join `before` to `after`. -/
def unlink (memory : Memory (Cell α) α) (before after : α) : Memory (Cell α) α :=
  Function.update (Function.update memory (.prev after) (some before)) (.next before) (some after)

/-- Joining two nodes leaves the fields of the others alone. -/
theorem unlink_frame {nodes : List α} {before after : α} (hbefore : before ∈ nodes)
    (hafter : after ∈ nodes) {field : Cell α} (hfield : field.node ∉ nodes) :
    unlink memory before after field = memory field := by
  unfold unlink
  rw [Function.update_of_ne, Function.update_of_ne]
  · rintro rfl
    exact hfield hafter
  · rintro rfl
    exact hfield hbefore

namespace Ring

/-- Linking a new node before the first node of a ring puts it first. -/
theorem link {node : α} {nodes : List α} (h : Ring memory nodes) (hne : nodes ≠ [])
    (hnode : node ∉ nodes) :
    Ring (Heap.link memory node (nodes.getLast hne) (nodes.head hne)) (node :: nodes) := by
  obtain ⟨hchain, -, -⟩ := h.chain_and_close hne
  have hlast : node ≠ nodes.getLast hne := fun heq => hnode (heq ▸ List.getLast_mem hne)
  have hhead : node ≠ nodes.head hne := fun heq => hnode (heq ▸ List.head_mem hne)
  refine of_chain_and_close (by simp) (List.nodup_cons.2 ⟨hnode, h.nodup⟩) ?_ ?_
  · obtain ⟨head, rest, rfl⟩ := List.exists_cons_of_ne_nil hne
    refine .cons_cons ⟨?_, ?_⟩ (chain_frame (fun a ha => ?_) (fun b hb => ?_) hchain)
    · simp [Heap.link, hlast]
    · simp [Heap.link]
    · have hlasta : a ≠ (head :: rest).getLast hne := fun heq => by
        have hnodup := h.nodup
        rw [← List.dropLast_append_getLast hne, ← heq] at hnodup
        exact List.disjoint_of_nodup_append hnodup ha (by simp)
      have hnodea : a ≠ node := fun heq => hnode (heq ▸ List.dropLast_subset _ ha)
      simp [Heap.link, hlasta, hnodea]
    · have hheadb : b ≠ head := fun heq => (List.nodup_cons.1 h.nodup).1 (heq ▸ hb)
      have hnodeb : b ≠ node := fun heq => hnode (heq ▸ List.mem_of_mem_tail hb)
      simp [Heap.link, hheadb, hnodeb]
  · simp only [List.getLast_cons hne, List.head_cons, Linked, Heap.link]
    simp [hhead]

/-- Unlinking the first node of a ring leaves the ring of the others. -/
theorem unlink {node : α} {nodes : List α} (h : Ring memory (node :: nodes)) (hne : nodes ≠ []) :
    Ring (Heap.unlink memory (nodes.getLast hne) (nodes.head hne)) nodes := by
  obtain ⟨hchain, -, -⟩ := h.chain_and_close (by simp)
  have hnodup := (List.nodup_cons.1 h.nodup).2
  refine of_chain_and_close hne hnodup (chain_frame (fun a ha => ?_) (fun b hb => ?_)
    (List.isChain_of_isChain_cons hchain)) ?_
  · have hlast : a ≠ nodes.getLast hne := fun heq => by
      rw [← List.dropLast_append_getLast hne, ← heq] at hnodup
      exact List.disjoint_of_nodup_append hnodup ha (by simp)
    simp [Heap.unlink, hlast]
  · obtain ⟨head, rest, rfl⟩ := List.exists_cons_of_ne_nil hne
    have hhead : b ≠ head := fun heq => (List.nodup_cons.1 hnodup).1 (heq ▸ hb)
    simp [Heap.unlink, hhead]
  · simp [Linked, Heap.unlink]

/-- Linking a new node at any position of a ring read from `head`. -/
theorem insert {head node : α} {front back : List α}
    (h : Ring memory (head :: (front ++ back))) (hnode : node ∉ head :: (front ++ back)) :
    Ring (Heap.link memory node (front.getLastD head) (back.headD head))
      (head :: (front ++ node :: back)) := by
  have hrot : Ring memory (back ++ head :: front) :=
    rotate (head :: front) back (by simpa using h)
  have hnew := hrot.link (by simp) (show node ∉ _ by
    simp only [List.mem_cons, List.mem_append] at hnode ⊢
    tauto)
  rw [getLast_rotated, head_rotated] at hnew
  have hback := rotate (node :: back) (head :: front) (by simpa using hnew)
  simpa using hback

/-- Unlinking the node at any position of a ring read from `head`. -/
theorem remove {head node : α} {front back : List α}
    (h : Ring memory (head :: (front ++ node :: back))) :
    Ring (Heap.unlink memory (front.getLastD head) (back.headD head))
      (head :: (front ++ back)) := by
  have hrot : Ring memory (node :: (back ++ head :: front)) :=
    rotate (head :: front) (node :: back) (by simpa using h)
  have hnew := hrot.unlink (by simp)
  rw [getLast_rotated, head_rotated] at hnew
  have hback := rotate back (head :: front) (by simpa using hnew)
  simpa using hback

end Ring

end Coursework.Heap
