import Coursework.LinkedLists.Correctness
import Mathlib.Data.List.Basic

/-!
# When items are added, deleted and appended

What `addItem`, `deleteItem` and `append` leave of a line of nodes. The pointer of the loop of
`addItem` stays at the first node, so an item that does not go to the front is never put in its
place (`addsInOrder_iff`). The loop of `deleteItem` reads the value behind the last node when the
item does not occur (`deletes_iff`). `append` needs a last node to put the others behind, and a list
that is appended to itself grows as fast as it is read (`World.Lines.appends_iff`).
Vocabulary and scope: `Coursework.LinkedLists.Program`.
-/

namespace Coursework.LinkedLists

open Heap

variable {ItemType : Type} {list : LinkedList} {s s' : Store (Node ItemType)}
  {nodes front mid back src : Nodes ItemType} {x y : Nat × ItemType} {val : ItemType}

/-- A list has one line of values. -/
theorem LinkedList.Holds.values_unique {nodes' : Nodes ItemType} (h : list.Holds s nodes)
    (h' : list.Holds s nodes') : nodes'.values = nodes.values :=
  Option.some.inj ((printList_eq h').symm.trans (printList_eq h))

/-! ## `addItem` -/

section AddItem

variable [LinearOrder ItemType]

/-- `addItem` ends with a sorted list of the values and one more. -/
def LinkedList.AddsInOrder (list : LinkedList) (s : Store (Node ItemType))
    (values : List ItemType) (val : ItemType) : Prop :=
  ∃ fuel result nodes', list.addItem fuel s val = some result ∧ result.1.Holds result.2 nodes' ∧
    nodes'.values.Pairwise (· ≤ ·) ∧ nodes'.values.Perm (val :: values)

/-- With two nodes the loop ends if the item belongs between them; otherwise it puts a node
there and goes on. -/
theorem addItemFrom_cons_cons (h : list.Holds s (x :: y :: back)) (val : ItemType) (fuel : Nat) :
    (x.2 < val ∧ val ≤ y.2 → LinkedList.addItemFrom val x.1 (fuel + 1) s = some s) ∧
      (¬ (x.2 < val ∧ val ≤ y.2) → ∃ s', list.Holds s' (x :: (s.fresh, val) :: y :: back) ∧
        LinkedList.addItemFrom val x.1 (fuel + 1) s = LinkedList.addItemFrom val x.1 fuel s') := by
  have hstops : LinkedList.stopsAt s val ⟨x.2, some y.1⟩ y.1 =
      some (decide (x.2 < val ∧ val ≤ y.2)) := by
    unfold LinkedList.stopsAt
    split
    · next hlt => simp [h.line.2.1, hlt]
    · next hlt => simp [hlt]
  constructor
  · intro hbetween
    rw [LinkedList.addItemFrom, h.line.1]
    simp only [first_cons, Option.bind_eq_bind, Option.bind_some, hstops, hbetween, and_self,
      decide_true, if_true]
  · intro hnot
    obtain ⟨s', hs', hholds, -⟩ := linkBehind_eq [] h val
    rw [first_cons] at hs'
    refine ⟨s', hholds, ?_⟩
    rw [LinkedList.addItemFrom, h.line.1]
    simp only [first_cons, Option.bind_eq_bind, Option.bind_some, hstops, decide_eq_false hnot,
      Bool.false_eq_true, if_false, hs']

/-- An item that equals the first value is put behind it again and again. -/
theorem addItemFrom_self (h : list.Holds s (x :: y :: back)) (fuel : Nat) :
    LinkedList.addItemFrom x.2 x.1 fuel s = none := by
  induction fuel generalizing s y back with
  | zero => rfl
  | succ fuel ih =>
      obtain ⟨s', hholds, hstep⟩ :=
        (addItemFrom_cons_cons h x.2 fuel).2 fun hbetween => lt_irrefl _ hbetween.1
      rw [hstep]
      exact ih hholds

/-- Behind a smaller first value the loop changes nothing, or it puts the item behind that value
and ahead of smaller ones. -/
theorem addItemFrom_of_lt {fuel : Nat} (h : list.Holds s (x :: back)) (hlt : x.2 < val)
    (hrun : LinkedList.addItemFrom val x.1 fuel s = some s') :
    list.Holds s' (x :: back) ∨
      ∃ y rest fresh, back = y :: rest ∧ y.2 < val ∧
        list.Holds s' (x :: (fresh, val) :: y :: rest) := by
  cases fuel with
  | zero => cases hrun
  | succ fuel =>
      cases back with
      | nil =>
          rw [LinkedList.addItemFrom, h.line.1] at hrun
          cases hrun
          exact .inl h
      | cons y rest =>
          rcases le_or_gt val y.2 with hle | hgt
          · rw [(addItemFrom_cons_cons h val fuel).1 ⟨hlt, hle⟩] at hrun
            cases hrun
            exact .inl h
          · obtain ⟨s₁, hholds, hstep⟩ :=
              (addItemFrom_cons_cons h val fuel).2 fun hbetween => not_le_of_gt hgt hbetween.2
            rw [hstep] at hrun
            cases fuel with
            | zero => cases hrun
            | succ fuel =>
                rw [(addItemFrom_cons_cons hholds val fuel).1 ⟨hlt, le_rfl⟩] at hrun
                cases hrun
                exact .inr ⟨y, rest, _, rfl, hgt, hholds⟩

/-- An item that is not smaller than the first value is never added in order. -/
theorem not_addsInOrder (h : list.Holds s (x :: back)) (hle : x.2 ≤ val) :
    ¬ list.AddsInOrder s (Nodes.values (x :: back)) val := by
  intro hadds
  obtain ⟨fuel, result, nodes', hrun, hholds, hsorted, hperm⟩ := hadds
  rw [LinkedList.addItem, h.head, first_cons] at hrun
  simp only [h.line.1, Option.bind_eq_bind, Option.bind_some, if_neg (not_lt_of_ge hle)] at hrun
  obtain ⟨s', hloop, hrun⟩ := Option.bind_eq_some_iff.1 hrun
  cases hrun
  have hsame : ¬ list.Holds s' (x :: back) := by
    intro hold
    have hlength := hperm.length_eq
    rw [hold.values_unique hholds, List.length_cons] at hlength
    omega
  rcases lt_or_eq_of_le hle with hlt | rfl
  · rcases addItemFrom_of_lt h hlt hloop with hold | ⟨y, rest, fresh, -, hgt, hnew⟩
    · exact hsame hold
    · -- the item stands ahead of a smaller value
      rw [hnew.values_unique hholds] at hsorted
      have hpair := (List.pairwise_cons.1 (List.pairwise_cons.1 hsorted).2).1
      exact not_le_of_gt hgt (hpair y.2 List.mem_cons_self)
  · cases back with
    | nil =>
        cases fuel with
        | zero => cases hloop
        | succ fuel =>
            rw [LinkedList.addItemFrom, h.line.1] at hloop
            cases hloop
            exact hsame h
    | cons y rest =>
        rw [addItemFrom_self h fuel] at hloop
        cases hloop

/-- Exactly the items smaller than the first value are added in order, and those for an empty
list. -/
theorem addsInOrder_iff (h : list.Holds s nodes) (hsorted : nodes.values.Pairwise (· ≤ ·))
    (val : ItemType) :
    list.AddsInOrder s nodes.values val ↔ ∀ x ∈ nodes.values.head?, val < x := by
  obtain ⟨nodes', hholds, hvalues, -⟩ := insertToFront_eq h val
  cases nodes with
  | nil =>
      refine iff_of_true ⟨0, list.insertToFront s val, nodes', ?_, hholds, ?_, ?_⟩ (by simp)
      · rw [LinkedList.addItem, h.head]
        rfl
      · simp [hvalues]
      · rw [hvalues]
  | cons x back =>
      simp only [values_cons, List.head?_cons, Option.mem_some_iff, forall_eq']
      constructor
      · intro hadds
        by_contra hnot
        exact not_addsInOrder h (not_lt.1 hnot) hadds
      · intro hlt
        refine ⟨0, list.insertToFront s val, nodes', ?_, hholds, ?_, ?_⟩
        · rw [LinkedList.addItem, h.head, first_cons]
          simp only [h.line.1, Option.bind_eq_bind, Option.bind_some, if_pos hlt]
        · rw [hvalues, List.pairwise_cons]
          refine ⟨fun z hz => ?_, hsorted⟩
          rw [values_cons, List.mem_cons] at hz
          rcases hz with rfl | hz
          · exact hlt.le
          · exact hlt.le.trans ((List.pairwise_cons.1 hsorted).1 z hz)
        · rw [hvalues, values_cons]

/-- A list of one item. -/
def oneItem : LinkedList × Store (Node Nat) :=
  LinkedList.new.insertToFront (.empty []) 7

theorem oneItem_holds : oneItem.1.Holds oneItem.2 [(0, 7)] :=
  ⟨rfl, ⟨rfl, trivial⟩, List.nodup_cons.2 ⟨List.not_mem_nil, List.nodup_nil⟩⟩

/-- A smaller item goes to the front of the list of one item. -/
theorem oneItem_adds_smaller : oneItem.1.AddsInOrder oneItem.2 [7] 5 :=
  (addsInOrder_iff oneItem_holds (List.pairwise_singleton _ 7) 5).2 (by simp)

/-- A larger item is not added to the list of one item. -/
theorem oneItem_not_adds_larger :
    oneItem.1.Holds oneItem.2 [(0, 7)] ∧ ¬ oneItem.1.AddsInOrder oneItem.2 [7] 9 :=
  ⟨oneItem_holds, not_addsInOrder oneItem_holds (by decide)⟩

end AddItem

/-! ## `deleteItem` -/

/-- The pointer to the next node is moved over a node. -/
theorem unlink_eq (front : Nodes ItemType) (h : list.Holds s (front ++ x :: y :: back)) :
    ∃ s', (s.modify (some x.1) fun node => { node with next := first none back }) = some s' ∧
      list.Holds s' (front ++ x :: back) ∧
      Confined s s' (Nodes.addresses (front ++ x :: y :: back))
        (Nodes.addresses (front ++ x :: back)) := by
  obtain ⟨hfront, hcell, -, hback⟩ := line_append.1 h.line
  have hsub : (front ++ x :: back).Sublist (front ++ x :: y :: back) :=
    ((List.sublist_cons_self y back).cons_cons x).append_left front
  have hnodup : (Nodes.addresses (front ++ x :: back)).Nodup := h.nodup.sublist (hsub.map _)
  refine ⟨_, Store.modify_eq hcell _, ⟨?_, hfront.relink hback hnodup, hnodup⟩, ⟨?_, ?_⟩⟩
  · rw [h.head, first_append, first_append]
    rfl
  · intro a ha _
    have hne : a ≠ x.1 := fun heq => ha (by simp [heq])
    rw [Store.cell?_set, if_neg hne]
  · exact fun a ha => .inl ((hsub.map _).subset ha)

section DeleteItem

variable [DecidableEq ItemType]

/-- `deleteItem` ends without an access through a null pointer, and it takes out the first node
with the value and no other node. -/
def LinkedList.Deletes (list : LinkedList) (s : Store (Node ItemType)) (nodes : Nodes ItemType)
    (val : ItemType) : Prop :=
  ∃ result, list.deleteItem s val = some result ∧
    result.1.Holds result.2 (nodes.eraseP fun node => node.2 = val)

/-- The loop of `deleteItem` stops ahead of the first node with the value, by induction on the
nodes between. -/
theorem aheadFrom_eq {fuel : Nat} (mid : Nodes ItemType) (h : Line s (x :: mid ++ y :: back) none)
    (hmid : ∀ node ∈ mid, node.2 ≠ y.2) (hfuel : mid.length < fuel) :
    LinkedList.aheadFrom s y.2 fuel (some x.1) = some (last (some x.1) mid) := by
  induction hfuel using Loops.walk_induction generalizing x with
  | nil fuel =>
      obtain ⟨hcell, hnext, -⟩ := h
      rw [LinkedList.aheadFrom, hcell]
      simp [hnext]
  | cons z mid fuel _ ih =>
      rw [List.forall_mem_cons] at hmid
      have hcell : s.cell? x.1 = some ⟨x.2, some z.1⟩ := h.1
      have hnext : s.cell? z.1 = some ⟨z.2, first none (mid ++ y :: back)⟩ := h.2.1
      rw [LinkedList.aheadFrom, hcell]
      simp only [Option.bind_eq_bind, Option.bind_some, Store.load_some, hnext, if_neg hmid.1]
      exact ih h.2 hmid.2

/-- Without the value behind its pointer the loop reads behind the last node. -/
theorem aheadFrom_eq_none (h : Line s (x :: back) none) (hnot : val ∉ back.values) (fuel : Nat) :
    LinkedList.aheadFrom s val fuel (some x.1) = none := by
  induction back generalizing x fuel with
  | nil =>
      cases fuel with
      | zero => rfl
      | succ fuel =>
          rw [LinkedList.aheadFrom, h.1]
          rfl
  | cons y back ih =>
      cases fuel with
      | zero => rfl
      | succ fuel =>
          rw [values_cons, List.mem_cons, not_or] at hnot
          have hcell : s.cell? x.1 = some ⟨x.2, some y.1⟩ := h.1
          rw [LinkedList.aheadFrom, hcell]
          simp only [Option.bind_eq_bind, Option.bind_some, Store.load_some, h.2.1,
            if_neg (Ne.symm hnot.1)]
          exact ih h.2 hnot.2 fuel

/-- `deleteItem` takes out the first node with a value that occurs. -/
theorem deleteItem_eq (h : list.Holds s nodes) (hmem : val ∈ nodes.values) :
    ∃ result, list.deleteItem s val = some result ∧
      result.1.Holds result.2 (nodes.eraseP fun node => node.2 = val) ∧
      Confined s result.2 nodes.addresses
        (Nodes.addresses (nodes.eraseP fun node => node.2 = val)) := by
  cases nodes with
  | nil => exact absurd hmem List.not_mem_nil
  | cons x back =>
      rw [LinkedList.deleteItem, h.head, first_cons]
      simp only [h.line.1, Option.bind_eq_bind, Option.bind_some]
      by_cases hval : x.2 = val
      · -- the first node
        rw [if_pos hval, Store.delete_eq h.line.1, List.eraseP_cons_of_pos (by simpa using hval)]
        obtain ⟨hnot, hnodup⟩ := List.nodup_cons.1 h.nodup
        refine ⟨(⟨first none back⟩, s.erase x.1), rfl, ⟨rfl, ?_, hnodup⟩,
          (Replaces.of_erase fun b => List.mem_cons).toConfined⟩
        refine h.line.2.frame fun a ha => ?_
        have hne : a ≠ x.1 := fun heq => hnot (heq ▸ ha)
        rw [Store.cell?_erase, if_neg hne]
      · rw [if_neg hval, List.eraseP_cons_of_neg (by simpa using hval)]
        rw [values_cons, List.mem_cons] at hmem
        obtain ⟨node, hnode, heq⟩ := List.mem_map.1 (hmem.resolve_left (Ne.symm hval))
        obtain ⟨y, mid, rest, hmid, hy, rfl, herase⟩ :=
          List.exists_of_eraseP (p := fun node => decide (node.2 = val)) hnode
            (decide_eq_true heq)
        obtain rfl := of_decide_eq_true hy
        have hlength := h.line.length_le_limit h.nodup
        have hahead : LinkedList.aheadFrom s y.2 (s.limit + 1) (some x.1) =
            some (last (some x.1) mid) := aheadFrom_eq mid h.line
          (fun node hnode => by simpa using hmid node hnode)
          (by simp only [List.length_cons, List.length_append] at hlength; omega)
        rw [herase, hahead]
        -- the node ahead is the last one up to there
        obtain ⟨front, z, hsplit, hlast⟩ := exists_last none x mid
        rw [last_cons] at hlast
        have hz : x :: (mid ++ y :: rest) = front ++ z :: y :: rest := by
          rw [← List.cons_append, hsplit, List.append_assoc, List.singleton_append]
        rw [hz] at h
        obtain ⟨-, hcell, hnext, -⟩ := line_append.1 h.line
        obtain ⟨s', hs', hholds, hconfined⟩ := unlink_eq front h
        have hz' : x :: (mid ++ rest) = front ++ z :: rest := by
          rw [← List.cons_append, hsplit, List.append_assoc, List.singleton_append]
        rw [hz, hz', hlast]
        simp only [hcell, Option.bind_some, first_cons, Store.load_some, hnext, hs']
        exact ⟨_, rfl, hholds, hconfined⟩

/-- A list with nodes but without the value is read behind its last node. -/
theorem deleteItem_eq_none (h : list.Holds s (x :: back))
    (hnot : val ∉ Nodes.values (x :: back)) : list.deleteItem s val = none := by
  rw [values_cons, List.mem_cons, not_or] at hnot
  rw [LinkedList.deleteItem, h.head, first_cons]
  simp only [h.line.1, Option.bind_eq_bind, Option.bind_some, if_neg (Ne.symm hnot.1),
    aheadFrom_eq_none h.line hnot.2, Option.bind_none]

/-- Without the value `deleteItem` ends for an empty list only. -/
theorem deleteItem_of_notMem {result : LinkedList × Store (Node ItemType)}
    (h : list.Holds s nodes) (hnot : val ∉ nodes.values)
    (hrun : list.deleteItem s val = some result) : nodes = [] ∧ result = (list, s) := by
  cases nodes with
  | nil =>
      rw [LinkedList.deleteItem, h.head] at hrun
      exact ⟨rfl, (Option.some.inj hrun).symm⟩
  | cons x back =>
      rw [deleteItem_eq_none h hnot] at hrun
      cases hrun

/-- Exactly the items that occur are deleted, and any item from an empty list. -/
theorem deletes_iff (h : list.Holds s nodes) (val : ItemType) :
    list.Deletes s nodes val ↔ nodes = [] ∨ val ∈ nodes.values := by
  constructor
  · intro hdeletes
    obtain ⟨result, hrun, -⟩ := hdeletes
    by_cases hmem : val ∈ nodes.values
    · exact .inr hmem
    · exact .inl (deleteItem_of_notMem h hmem hrun).1
  · intro hcase
    rcases hcase with rfl | hmem
    · refine ⟨(list, s), ?_, h⟩
      rw [LinkedList.deleteItem, h.head]
      rfl
    · obtain ⟨result, hrun, hholds, -⟩ := deleteItem_eq h hmem
      exact ⟨result, hrun, hholds⟩

/-- A list of four items. -/
def fourItems : LinkedList × Store (Node Nat) :=
  [9, 7, 5, 2].foldl (fun result val => result.1.insertToFront result.2 val)
    (LinkedList.new, .empty [])

theorem fourItems_holds : fourItems.1.Holds fourItems.2 [(3, 2), (2, 5), (1, 7), (0, 9)] :=
  ⟨rfl, ⟨rfl, rfl, rfl, rfl, trivial⟩, by decide⟩

/-- An item behind the head of the list of four items is deleted. -/
theorem fourItems_deletes :
    fourItems.1.Deletes fourItems.2 [(3, 2), (2, 5), (1, 7), (0, 9)] 7 :=
  (deletes_iff fourItems_holds 7).2 (.inr (by decide))

/-- Another item is looked for behind the only node. -/
theorem oneItem_not_deletes :
    oneItem.1.Holds oneItem.2 [(0, 7)] ∧ ¬ oneItem.1.Deletes oneItem.2 [(0, 7)] 9 := by
  refine ⟨oneItem_holds, fun hdeletes => ?_⟩
  obtain ⟨result, hrun, -⟩ := hdeletes
  rw [deleteItem_eq_none oneItem_holds (by simp)] at hrun
  cases hrun

end DeleteItem

/-! ## `append` -/

/-- The values of another list are put behind the last node, by induction on the nodes still to be
read. -/
theorem appendFrom_eq {fuel : Nat} (h : list.Holds s (front ++ [x])) (hsrc : Line s src none)
    (hdisj : ∀ a ∈ src.addresses, a ∉ Nodes.addresses (front ++ [x]))
    (hfuel : src.length < fuel) :
    ∃ s' nodes', LinkedList.appendFrom fuel s x.1 (first none src) = some s' ∧
      list.Holds s' nodes' ∧ nodes'.values = Nodes.values (front ++ [x]) ++ src.values ∧
      Replaces s s' (Nodes.addresses (front ++ [x])) nodes'.addresses := by
  induction hfuel using Loops.walk_induction generalizing s front x with
  | nil fuel =>
      exact ⟨s, _, rfl, h, by simp, .refl s _⟩
  | cons node src fuel _ ih =>
      obtain ⟨s₁, hs₁, hholds, hreplaces⟩ := linkBehind_eq front h node.2
      obtain ⟨hcells, hdisj₁⟩ := hreplaces.toConfined.disjoint hsrc.allocated hdisj
      have hsrc₁ := hsrc.frame hcells
      have hsplit : front ++ [x, (s.fresh, node.2)] = front ++ [x] ++ [(s.fresh, node.2)] := by
        rw [List.append_assoc, List.singleton_append]
      rw [hsplit] at hholds hreplaces hdisj₁
      rw [addresses_cons, List.forall_mem_cons] at hdisj₁
      obtain ⟨s', nodes', hrest, hholds', hvalues, hreplaces'⟩ :=
        ih hholds hsrc₁.2 hdisj₁.2
      refine ⟨s', nodes', ?_, hholds', ?_, hreplaces.trans hreplaces'⟩
      · have hcell : s₁.cell? node.1 = some ⟨node.2, first none src⟩ := hsrc₁.1
        rw [first_nil] at hs₁
        rw [first_cons, LinkedList.appendFrom, hsrc.1]
        simp only [Option.bind_eq_bind, Option.bind_some, hs₁, hcell]
        exact hrest
      · rw [hvalues, values_cons, values_append _ [(s.fresh, node.2)], List.append_assoc]
        rfl

/-- When a list is read while nodes are put behind it, there is always one more node to read. -/
theorem appendFrom_self {a : Nat} (h : list.Holds s (front ++ (mid ++ [x])))
    (ha : first none (mid ++ [x]) = some a) (fuel : Nat) :
    LinkedList.appendFrom fuel s x.1 (some a) = none := by
  induction fuel generalizing s front mid x a with
  | zero => rfl
  | succ fuel ih =>
      obtain ⟨node, rest, hsplit⟩ := List.exists_cons_of_ne_nil (l := mid ++ [x]) (by simp)
      obtain rfl : node.1 = a := by
        rw [hsplit] at ha
        exact Option.some.inj ha
      have hread : Line s (node :: rest) none := hsplit ▸ (line_append.1 h.line).2
      rw [← List.append_assoc] at h
      obtain ⟨s₁, hs₁, hholds, -⟩ := linkBehind_eq (front ++ mid) h node.2
      have hagain : front ++ mid ++ [x, (s.fresh, node.2)] =
          front ++ [node] ++ (rest ++ [(s.fresh, node.2)]) := by
        calc front ++ mid ++ [x, (s.fresh, node.2)]
            = front ++ (mid ++ [x]) ++ [(s.fresh, node.2)] := by simp
          _ = front ++ [node] ++ (rest ++ [(s.fresh, node.2)]) := by rw [hsplit]; simp
      rw [hagain] at hholds
      have hcell : s₁.cell? node.1 = some ⟨node.2, first none (rest ++ [(s.fresh, node.2)])⟩ := by
        rw [List.append_assoc] at hholds
        exact (line_append.1 hholds.line).2.1
      obtain ⟨b, hb⟩ := exists_first none rest (s.fresh, node.2) []
      rw [first_nil] at hs₁
      rw [LinkedList.appendFrom, hread.1]
      simp only [Option.bind_eq_bind, Option.bind_some, hs₁, hcell, hb]
      exact ih hholds hb

/-- `append` puts the values of another list behind those of a list with nodes. -/
theorem append_eq {other : LinkedList} (h : list.Holds s nodes) (hsrc : other.Holds s src)
    (hdisj : ∀ a ∈ src.addresses, a ∉ nodes.addresses) (hne : nodes ≠ []) :
    ∃ result, list.append (s.limit + 1) s other = some result ∧
      Becomes s nodes result (nodes.values ++ src.values) := by
  obtain ⟨front, x, rfl⟩ := (List.eq_nil_or_concat' nodes).resolve_left hne
  obtain ⟨a, hhead, hlast⟩ := lastFrom_head h
  obtain ⟨s', nodes', happend, hholds, hvalues, hreplaces⟩ := appendFrom_eq h hsrc.line hdisj
    (Nat.lt_succ_of_le (hsrc.line.length_le_limit hsrc.nodup))
  refine ⟨(list, s'), ?_, nodes', hholds, hvalues, hreplaces⟩
  rw [LinkedList.append, hhead]
  simp only [Option.bind_eq_bind, Option.bind_some, hlast, hsrc.head, happend]

/-- A list with nodes that is appended to itself: the loop does not end. -/
theorem append_self (h : list.Holds s nodes) (hne : nodes ≠ []) (fuel : Nat) :
    list.append fuel s list = none := by
  obtain ⟨front, x, rfl⟩ := (List.eq_nil_or_concat' nodes).resolve_left hne
  obtain ⟨a, hhead, hlast⟩ := lastFrom_head h
  rw [LinkedList.append, hhead]
  simp only [Option.bind_eq_bind, Option.bind_some, hlast,
    appendFrom_self (show list.Holds s ([] ++ (front ++ [x])) from h)
      (h.head.symm.trans hhead) fuel, Option.bind_none]

/-- An empty list has no last node. -/
theorem append_nil {other : LinkedList} (h : list.Holds s []) (fuel : Nat) :
    list.append fuel s other = none := by
  rw [LinkedList.append, h.head]
  rfl

namespace World

variable {ι : Type} [DecidableEq ι] {w : World ι ItemType} {parts : ι → Nodes ItemType} {i j : ι}

/-- Another list is appended to a list with nodes. -/
theorem Lines.append (h : w.Lines parts) (hij : i ≠ j) (hne : parts i ≠ []) :
    ∃ fuel w' nodes', w.append fuel i j = some w' ∧ w'.Lines (Function.update parts i nodes') ∧
      nodes'.values = (parts i).values ++ (parts j).values := by
  obtain ⟨result, hresult, nodes', hholds, hvalues, hreplaces⟩ :=
    append_eq (h.holds i) (h.holds j) (h.disjoint (Ne.symm hij)) hne
  refine ⟨w.store.limit + 1, w.put i result, nodes', ?_, h.put hholds hreplaces.toConfined,
    hvalues⟩
  rw [World.append, hresult]
  rfl

/-- Exactly a list with nodes can be appended to, and not by itself. -/
theorem Lines.appends_iff (h : w.Lines parts) (a b : ι) :
    w.Appends a b ↔ (w.lists a).isEmpty = false ∧ a ≠ b := by
  have hempty : (w.lists a).isEmpty = false ↔ parts a ≠ [] := by
    rw [LinkedList.isEmpty, (h.holds a).head]
    cases parts a <;> simp
  rw [hempty]
  constructor
  · intro happends
    obtain ⟨fuel, w', happend, -⟩ := happends
    obtain ⟨result, hresult, -⟩ := Option.map_eq_some_iff.1 happend
    constructor
    · intro hnil
      rw [append_nil (hnil ▸ h.holds a)] at hresult
      cases hresult
    · rintro rfl
      by_cases hnil : parts a = []
      · rw [append_nil (hnil ▸ h.holds a)] at hresult
        cases hresult
      · rw [append_self (h.holds a) hnil] at hresult
        cases hresult
  · intro hcase
    obtain ⟨hne, hab⟩ := hcase
    obtain ⟨fuel, w', nodes', happend, hlines, hvalues⟩ := h.append hab hne
    refine ⟨fuel, w', happend, ?_, fun _ => ?_⟩
    · rw [hlines.values, h.values, h.values, Function.update_self, hvalues]
      rfl
    · rw [hlines.values, h.values, Function.update_of_ne (Ne.symm hab)]

theorem oneAndEmpty_lines : ∃ parts, oneAndEmpty.Lines parts := by
  have hbuilt : oneAndEmpty.Built := .insertToFront true 7 (.start [])
  obtain ⟨parts, hparts⟩ := hbuilt.exists_holds
  exact ⟨parts, hparts.lines⟩

/-- A program with two lists of two values. -/
def twoLists : World Bool Nat :=
  [(true, 9), (true, 7), (false, 8), (false, 5)].foldl
    (fun w entry => w.put entry.1 ((w.lists entry.1).insertToFront w.store entry.2)) (start [])

/-- One of the lists is appended to the other. -/
theorem twoLists_appends : twoLists.Appends true false := by
  have hbuilt : twoLists.Built :=
    .insertToFront false 5 (.insertToFront false 8
      (.insertToFront true 7 (.insertToFront true 9 (.start []))))
  obtain ⟨parts, hparts⟩ := hbuilt.exists_holds
  exact (hparts.lines.appends_iff true false).2 ⟨rfl, by decide⟩

/-- Nothing is appended to the empty list, and the list of one value not to itself. -/
theorem oneAndEmpty_not_appends :
    (∃ parts, oneAndEmpty.Lines parts) ∧ ¬ oneAndEmpty.Appends false true ∧
      ¬ oneAndEmpty.Appends true true := by
  obtain ⟨parts, hlines⟩ := oneAndEmpty_lines
  have hempty := hlines.holds false
  have hfull := hlines.holds true
  refine ⟨⟨parts, hlines⟩, fun happends => ?_, fun happends => ?_⟩
  · obtain ⟨fuel, w', happend, -⟩ := happends
    cases happend
  · obtain ⟨fuel, w', happend, -⟩ := happends
    have hne : parts true ≠ [] := by
      intro hnil
      rw [hnil] at hfull
      cases hfull.head
    rw [World.append, append_self hfull hne] at happend
    cases happend

end World

end Coursework.LinkedLists
