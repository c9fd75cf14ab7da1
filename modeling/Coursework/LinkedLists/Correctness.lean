import Coursework.Loops.Counting
import Coursework.LinkedLists.Program
import Mathlib.Order.Nat

/-!
# When lists are assigned and swapped

A list holds a line of nodes (`LinkedList.Holds`), and every operation replaces the nodes of its
list by others with given values (`Becomes`). `World.Holds` says that the lists of a program hold
disjoint lines and that no other node is allocated.
The assignment of an empty list deletes the nodes but leaves the head, so it is right only for
an empty destination (`World.assigns_iff_swaps_iff`).
Vocabulary and scope: `Coursework.LinkedLists.Program`.
-/

namespace Coursework.LinkedLists

open Heap

variable {ItemType : Type} {list : LinkedList} {s s' : Store (Node ItemType)}
  {nodes front back src : Nodes ItemType} {val : ItemType}

/-- The list is this line of distinct nodes. -/
structure LinkedList.Holds (list : LinkedList) (s : Store (Node ItemType))
    (nodes : Nodes ItemType) : Prop where
  head : list.head = first none nodes
  line : Line s nodes none
  nodup : nodes.addresses.Nodup

/-- The nodes of a list were replaced by nodes with these values. -/
def Becomes (s : Store (Node ItemType)) (nodes : Nodes ItemType)
    (result : LinkedList × Store (Node ItemType)) (values : List ItemType) : Prop :=
  ∃ nodes', result.1.Holds result.2 nodes' ∧ nodes'.values = values ∧
    Replaces s result.2 nodes.addresses nodes'.addresses

/-- A list that is not touched is kept. -/
theorem LinkedList.Holds.frame {other : Nodes ItemType} {old new : List Nat}
    (h : list.Holds s other) (hstep : Confined s s' old new)
    (hdisj : ∀ a ∈ other.addresses, a ∉ old) :
    list.Holds s' other ∧ ∀ a ∈ other.addresses, a ∉ new := by
  obtain ⟨hcells, hnew⟩ := hstep.disjoint h.line.allocated hdisj
  exact ⟨⟨h.head, h.line.frame hcells, h.nodup⟩, hnew⟩

/-- A new list holds nothing. -/
theorem new_holds (s : Store (Node ItemType)) : LinkedList.new.Holds s [] :=
  ⟨rfl, trivial, List.nodup_nil⟩

/-! ## Insertions -/

/-- `insertToFront` puts a value in front. -/
theorem insertToFront_eq (h : list.Holds s nodes) (val : ItemType) :
    Becomes s nodes (list.insertToFront s val) (val :: nodes.values) := by
  have hfresh : s.fresh ∉ nodes.addresses := fun hmem =>
    h.line.allocated _ hmem s.cell?_fresh
  refine ⟨(s.fresh, val) :: nodes, ⟨rfl, ⟨?_, h.line.frame fun a ha => ?_⟩,
    List.nodup_cons.2 ⟨hfresh, h.nodup⟩⟩, rfl, .of_new _ (fun _ _ _ => rfl) fun a => ?_⟩
  · simp [LinkedList.insertToFront, h.head]
  · have hne : a ≠ s.fresh := fun heq => hfresh (heq ▸ ha)
    rw [LinkedList.insertToFront, Store.cell?_new, if_neg hne]
  · rw [addresses_cons, List.mem_cons]

/-- The loop of `insertToRear` stops at the last node, by induction on the nodes ahead of it. -/
theorem lastFrom_eq {last : Nat × ItemType} {fuel : Nat} (front : Nodes ItemType)
    (h : Line s (front ++ [last]) none) (hfuel : front.length < fuel) {a : Nat}
    (ha : first none (front ++ [last]) = some a) :
    LinkedList.lastFrom s fuel a = some last.1 := by
  induction hfuel using Loops.walk_induction generalizing a with
  | nil fuel =>
      cases ha
      rw [LinkedList.lastFrom, h.1]
      rfl
  | cons node front fuel _ ih =>
      cases ha
      have hcell : s.cell? node.1 = some ⟨node.2, first none (front ++ [last])⟩ := h.1
      obtain ⟨b, hnext⟩ := exists_first none front last []
      rw [LinkedList.lastFrom, hcell]
      simp only [Option.bind_eq_bind, Option.bind_some, hnext]
      exact ih h.2 hnext

/-- The loop to the last node of a list with nodes. -/
theorem lastFrom_head {last : Nat × ItemType} (h : list.Holds s (front ++ [last])) :
    ∃ a, list.head = some a ∧ LinkedList.lastFrom s (s.limit + 1) a = some last.1 := by
  obtain ⟨a, ha⟩ := exists_first none front last []
  have hlength := h.line.length_le_limit h.nodup
  rw [List.length_append, List.length_singleton] at hlength
  exact ⟨a, h.head.trans ha, lastFrom_eq front h.line (by omega) ha⟩

/-- A new node behind another node. -/
theorem linkBehind_eq {x : Nat × ItemType} (front : Nodes ItemType)
    (h : list.Holds s (front ++ x :: back)) (val : ItemType) :
    ∃ s', ((s.new ⟨val, first none back⟩).modify (some x.1) fun node =>
        { node with next := some s.fresh }) = some s' ∧
      list.Holds s' (front ++ x :: (s.fresh, val) :: back) ∧
      Replaces s s' (Nodes.addresses (front ++ x :: back))
        (Nodes.addresses (front ++ x :: (s.fresh, val) :: back)) := by
  obtain ⟨hfront, hcell, hback⟩ := line_append.1 h.line
  have hfresh : s.fresh ∉ Nodes.addresses (front ++ x :: back) := fun hmem =>
    h.line.allocated _ hmem s.cell?_fresh
  have hnodup := h.nodup
  have hperm : (Nodes.addresses (front ++ x :: (s.fresh, val) :: back)).Perm
      (s.fresh :: Nodes.addresses (front ++ x :: back)) := by
    rw [addresses_append, addresses_append, addresses_cons, addresses_cons, addresses_cons]
    exact ((List.Perm.swap s.fresh x.1 _).append_left _).trans List.perm_middle
  rw [addresses_append, addresses_cons, List.nodup_append, List.nodup_cons] at hnodup
  obtain ⟨-, ⟨hxback, -⟩, hdisj⟩ := hnodup
  rw [addresses_append, addresses_cons, List.mem_append, List.mem_cons, not_or, not_or] at hfresh
  obtain ⟨hnfront, hnx, hnback⟩ := hfresh
  have hxcell : (s.new ⟨val, first none back⟩).cell? x.1 = some ⟨x.2, first none back⟩ := by
    rw [Store.cell?_new, if_neg (Ne.symm hnx), hcell]
  refine ⟨_, Store.modify_eq hxcell _, ⟨?_, line_append.2 ⟨hfront.frame fun a ha => ?_, ?_, ?_,
    hback.frame fun a ha => ?_⟩, ?_⟩, .of_new ⟨val, first none back⟩
      (fun a _ ha => ?_) fun a => ?_⟩
  · rw [h.head, first_append, first_append]
    rfl
  · have hne : a ≠ s.fresh := fun heq => hnfront (heq ▸ ha)
    have hne' : a ≠ x.1 := fun heq => hdisj a ha _ List.mem_cons_self heq
    rw [Store.cell?_set, if_neg hne', Store.cell?_new, if_neg hne]
  · simp
  · simp [hnx]
  · have hne : a ≠ s.fresh := fun heq => hnback (heq ▸ ha)
    have hne' : a ≠ x.1 := fun heq => hxback (heq ▸ ha)
    rw [Store.cell?_set, if_neg hne', Store.cell?_new, if_neg hne]
  · rw [hperm.nodup_iff, List.nodup_cons]
    refine ⟨fun hmem => ?_, h.nodup⟩
    exact h.line.allocated _ hmem s.cell?_fresh
  · rw [addresses_append, addresses_cons, List.mem_append, List.mem_cons, not_or, not_or] at ha
    rw [Store.cell?_set, if_neg ha.2.1]
  · rw [hperm.mem_iff, List.mem_cons]

/-- `insertToRear` puts a value behind the others. -/
theorem insertToRear_eq (h : list.Holds s nodes) (val : ItemType) :
    ∃ result, list.insertToRear s val = some result ∧
      Becomes s nodes result (nodes.values ++ [val]) := by
  unfold LinkedList.insertToRear
  rcases List.eq_nil_or_concat' nodes with rfl | ⟨front, last, rfl⟩
  · rw [h.head]
    exact ⟨_, rfl, insertToFront_eq h val⟩
  · obtain ⟨a, hhead, hlast⟩ := lastFrom_head h
    obtain ⟨s', hs', hholds, hreplaces⟩ := linkBehind_eq front h val
    rw [first_nil] at hs'
    rw [hhead]
    simp only [Option.bind_eq_bind, Option.bind_some, hlast, hs']
    exact ⟨_, rfl, _, hholds, by simp, hreplaces⟩

/-- The loop of `addItem` puts copies of a value behind the first node as long as it runs. -/
theorem addItemFrom_holds [LinearOrder ItemType] {x : Nat × ItemType} {fuel : Nat}
    (h : list.Holds s (x :: back))
    (hrun : LinkedList.addItemFrom val x.1 fuel s = some s') :
    ∃ back', list.Holds s' (x :: back') ∧
      Replaces s s' (Nodes.addresses (x :: back)) (Nodes.addresses (x :: back')) := by
  induction fuel generalizing s back with
  | zero => cases hrun
  | succ fuel ih =>
      rw [LinkedList.addItemFrom, h.line.1] at hrun
      simp only [Option.bind_eq_bind, Option.bind_some] at hrun
      cases hback : first none back with
      | none =>
          rw [hback] at hrun
          cases hrun
          exact ⟨back, h, .refl _ _⟩
      | some next =>
          rw [hback] at hrun
          obtain ⟨stop, -, hrun⟩ := Option.bind_eq_some_iff.1 hrun
          cases stop with
          | true =>
              cases hrun
              exact ⟨back, h, .refl _ _⟩
          | false =>
              obtain ⟨s₁, hs₁, hholds, hreplaces⟩ := linkBehind_eq [] h val
              rw [hback] at hs₁
              simp only [Bool.false_eq_true, if_false, hs₁, Option.bind_some] at hrun
              obtain ⟨back', hholds', hreplaces'⟩ := ih hholds hrun
              exact ⟨back', hholds', hreplaces.trans hreplaces'⟩

/-- `addItem` leaves a list if it ends. -/
theorem addItem_holds [LinearOrder ItemType] {fuel : Nat}
    {result : LinkedList × Store (Node ItemType)}
    (h : list.Holds s nodes) (hrun : list.addItem fuel s val = some result) :
    ∃ values, Becomes s nodes result values := by
  unfold LinkedList.addItem at hrun
  rw [h.head] at hrun
  cases nodes with
  | nil =>
      cases hrun
      exact ⟨_, insertToFront_eq h val⟩
  | cons x back =>
      rw [first_cons] at hrun
      simp only [h.line.1, Option.bind_eq_bind, Option.bind_some] at hrun
      split at hrun
      · cases hrun
        exact ⟨_, insertToFront_eq h val⟩
      · obtain ⟨s', hs', hrun⟩ := Option.bind_eq_some_iff.1 hrun
        cases hrun
        obtain ⟨back', hholds, hreplaces⟩ := addItemFrom_holds h hs'
        exact ⟨_, _, hholds, rfl, hreplaces⟩

/-! ## Deletion and copies -/

/-- The deleting loop deletes the nodes from the pointer on. -/
theorem deleteFrom_eq {fuel : Nat} (h : Line s nodes none) (hnodup : nodes.addresses.Nodup)
    (hfuel : nodes.length < fuel) :
    ∃ s', LinkedList.deleteFrom fuel s (first none nodes) = some s' ∧
      Replaces s s' nodes.addresses [] := by
  induction hfuel using Loops.walk_induction generalizing s with
  | nil fuel =>
      exact ⟨s, rfl, .refl s _⟩
  | cons node nodes fuel _ ih =>
      obtain ⟨hcell, hrest⟩ := h
      obtain ⟨hnot, hnodup⟩ := List.nodup_cons.1 hnodup
      have herase : Replaces s (s.erase node.1) (Nodes.addresses (node :: nodes))
          (Nodes.addresses nodes) := .of_erase fun b => List.mem_cons
      have hline : Line (s.erase node.1) nodes none := by
        refine hrest.frame fun a ha => ?_
        have hne : a ≠ node.1 := fun heq => hnot (heq ▸ ha)
        rw [Store.cell?_erase, if_neg hne]
      obtain ⟨s', hs', hreplaces⟩ := ih hline hnodup
      refine ⟨s', ?_, herase.trans hreplaces⟩
      rw [first_cons, LinkedList.deleteFrom, hcell]
      simp only [Option.bind_eq_bind, Option.bind_some, Store.delete_eq hcell, hs']

/-- The copying loop puts the values from the pointer on behind the others, by induction on
the nodes still to be copied. -/
theorem copyFrom_eq {fuel : Nat} (h : list.Holds s nodes) (hsrc : Line s src none)
    (hdisj : ∀ a ∈ src.addresses, a ∉ nodes.addresses) (hfuel : src.length < fuel) :
    ∃ result, LinkedList.copyFrom fuel list s (first none src) = some result ∧
      Becomes s nodes result (nodes.values ++ src.values) := by
  induction hfuel using Loops.walk_induction generalizing list s nodes with
  | nil fuel =>
      exact ⟨(list, s), rfl, nodes, h, by simp, .refl s _⟩
  | cons node src fuel _ ih =>
      obtain ⟨⟨list₁, s₁⟩, hinsert, nodes₁, hholds, hvalues, hreplaces⟩ :=
        insertToRear_eq h node.2
      obtain ⟨hcells, hdisj₁⟩ := hreplaces.toConfined.disjoint hsrc.allocated hdisj
      have hsrc₁ := hsrc.frame hcells
      rw [addresses_cons, List.forall_mem_cons] at hdisj₁
      obtain ⟨result, hrest, nodes', hholds', hvalues', hreplaces'⟩ :=
        ih hholds hsrc₁.2 hdisj₁.2
      refine ⟨result, ?_, nodes', hholds', ?_, hreplaces.trans hreplaces'⟩
      · have hcell : s₁.cell? node.1 = some ⟨node.2, first none src⟩ := hsrc₁.1
        rw [first_cons, LinkedList.copyFrom, hsrc.1]
        simp only [Option.bind_eq_bind, Option.bind_some, hinsert, hcell]
        exact hrest
      · rw [hvalues', hvalues, values_cons, List.append_assoc, List.singleton_append]

/-- The copy constructor makes a list of the same values. -/
theorem copy_eq {rhs : LinkedList} (hsrc : rhs.Holds s src) :
    ∃ result, rhs.copy s = some result ∧ Becomes s [] result src.values := by
  unfold LinkedList.copy
  split
  · next hnull =>
    rw [hsrc.head] at hnull
    obtain rfl : src = [] := by
      cases src with
      | nil => rfl
      | cons node src => cases hnull
    exact ⟨_, rfl, [], new_holds s, rfl, .refl s _⟩
  · rw [hsrc.head]
    exact copyFrom_eq (new_holds s) hsrc.line (fun _ _ => List.not_mem_nil)
      (Nat.lt_succ_of_le (hsrc.line.length_le_limit hsrc.nodup))

/-- The assignment of a list with values, and any assignment to an empty list. -/
theorem assign_eq {rhs : LinkedList} (h : list.Holds s nodes) (hsrc : rhs.Holds s src)
    (hdisj : ∀ a ∈ src.addresses, a ∉ nodes.addresses) (hne : src ≠ [] ∨ nodes = []) :
    ∃ result, list.assign s rhs = some result ∧ Becomes s nodes result src.values := by
  unfold LinkedList.assign
  cases src with
  | nil =>
      obtain rfl : nodes = [] := hne.resolve_left fun hne => hne rfl
      rw [hsrc.head, first_nil, if_pos rfl, h.head]
      exact ⟨(list, s), rfl, [], h, rfl, .refl s _⟩
  | cons node src =>
      have hhead : list.head ≠ rhs.head := by
        rw [h.head, hsrc.head, first_cons]
        cases nodes with
        | nil => exact fun heq => by cases heq
        | cons x nodes =>
            intro heq
            exact hdisj node.1 List.mem_cons_self (Option.some.inj heq ▸ List.mem_cons_self)
      obtain ⟨s₁, hdelete, hreplaces⟩ := deleteFrom_eq h.line h.nodup
        (Nat.lt_succ_of_le (h.line.length_le_limit h.nodup))
      obtain ⟨hcells, -⟩ := hreplaces.toConfined.disjoint hsrc.line.allocated hdisj
      have hsrc₁ := hsrc.line.frame hcells
      obtain ⟨result, hcopy, nodes', hholds, hvalues, hreplaces'⟩ := copyFrom_eq (new_holds s₁)
        hsrc₁ (fun _ _ => List.not_mem_nil)
        (Nat.lt_succ_of_le (hsrc₁.length_le_limit hsrc.nodup))
      rw [if_neg (by rw [hsrc.head]; exact Option.some_ne_none _), if_neg hhead, h.head, hdelete,
        hsrc.head]
      refine ⟨result, ?_, nodes', hholds, hvalues, hreplaces.trans hreplaces'⟩
      rw [Option.bind_eq_bind, Option.bind_some]
      exact hcopy

/-- The loop of `printList` prints the values of the nodes still to be visited. -/
theorem valuesFrom_eq {fuel : Nat} (hline : Line s nodes none) (hfuel : nodes.length < fuel) :
    LinkedList.valuesFrom s fuel (first none nodes) = some nodes.values := by
  induction hfuel using Loops.walk_induction with
  | nil fuel =>
      rfl
  | cons node nodes fuel _ ih =>
      rw [first_cons, LinkedList.valuesFrom, hline.1]
      simp only [Option.bind_eq_bind, Option.bind_some,
        ih hline.2, values_cons]

/-- `printList` prints the values. -/
theorem printList_eq (h : list.Holds s nodes) : list.printList s = some nodes.values := by
  rw [LinkedList.printList, h.head]
  exact valuesFrom_eq h.line (Nat.lt_succ_of_le (h.line.length_le_limit h.nodup))

/-! ## Programs -/

/-- The lists are disjoint lines. -/
structure World.Lines {ι : Type} (w : World ι ItemType) (parts : ι → Nodes ItemType) : Prop where
  holds : ∀ i, (w.lists i).Holds w.store (parts i)
  disjoint : ∀ {i j}, i ≠ j → ∀ a ∈ (parts i).addresses, a ∉ (parts j).addresses

/-- The lists are disjoint lines and no other node is allocated. -/
structure World.Holds {ι : Type} (w : World ι ItemType) (parts : ι → Nodes ItemType) : Prop where
  holds : ∀ i, (w.lists i).Holds w.store (parts i)
  disjoint : ∀ {i j}, i ≠ j → ∀ a ∈ (parts i).addresses, a ∉ (parts j).addresses
  owned : ∀ a, w.store.cell? a ≠ none → ∃ i, a ∈ (parts i).addresses

namespace World

variable {ι : Type} {w w' : World ι ItemType} {parts : ι → Nodes ItemType} {i j : ι}

/-- The lists of a program and one more beside them. -/
def beside (w : World ι ItemType) (tempList : LinkedList) : World (Option ι) ItemType :=
  ⟨w.store, fun name => name.elim tempList w.lists⟩

/-- Without its account of the other nodes. -/
theorem Holds.lines (h : w.Holds parts) : w.Lines parts :=
  ⟨h.holds, h.disjoint⟩

/-- No pointer dangles where every list is a line. -/
theorem Holds.noDangling (h : w.Holds parts) : w.NoDangling := by
  refine ⟨fun i a ha => ?_, fun a b node hcell hb => ?_⟩
  · have hline := h.holds i
    rw [hline.head] at ha
    refine hline.line.allocated a ?_
    cases hparts : parts i with
    | nil =>
        rw [hparts] at ha
        cases ha
    | cons node nodes =>
        rw [hparts] at ha
        cases ha
        exact List.mem_cons_self
  · obtain ⟨i, hi⟩ := h.owned a (hcell ▸ Option.some_ne_none _)
    have hline := (h.holds i).line
    exact hline.allocated b ((hline.next_mem hi hcell hb).resolve_right (by simp))

/-- The values of a list. -/
theorem Lines.values (h : w.Lines parts) (i : ι) : w.values i = some (parts i).values :=
  printList_eq (h.holds i)

/-- The values of a list. -/
theorem Holds.values (h : w.Holds parts) (i : ι) : w.values i = some (parts i).values :=
  h.lines.values i

variable [DecidableEq ι]

/-- One list gets other nodes, and nodes that are in no list may be left. -/
theorem Lines.put (h : w.Lines parts) {result : LinkedList × Store (Node ItemType)}
    {nodes' : Nodes ItemType} (hholds : result.1.Holds result.2 nodes')
    (hconfined : Confined w.store result.2 (parts i).addresses nodes'.addresses) :
    (w.put i result).Lines (Function.update parts i nodes') where
  holds := by
    intro k
    by_cases hki : k = i
    · subst hki
      simpa [World.put] using hholds
    · have hframe := ((h.holds k).frame hconfined (h.disjoint hki)).1
      simpa [World.put, hki] using hframe
  disjoint := separate_update h.disjoint fun k hki =>
    ((h.holds k).frame hconfined (h.disjoint hki)).2

/-- One list gets other nodes. -/
theorem Holds.put (h : w.Holds parts) {result : LinkedList × Store (Node ItemType)}
    {nodes' : Nodes ItemType} (hholds : result.1.Holds result.2 nodes')
    (hreplaces : Replaces w.store result.2 (parts i).addresses nodes'.addresses) :
    (w.put i result).Holds (Function.update parts i nodes') where
  holds := (h.lines.put hholds hreplaces.toConfined).holds
  disjoint := (h.lines.put hholds hreplaces.toConfined).disjoint
  owned := by
    intro a ha
    rcases hreplaces.left a ha with hnew | ⟨hold, halloc⟩
    · exact ⟨i, by rwa [Function.update_self]⟩
    · obtain ⟨k, hk⟩ := h.owned a halloc
      have hki : k ≠ i := fun heq => hold (heq ▸ hk)
      exact ⟨k, by rwa [Function.update_of_ne hki]⟩

/-- An assignment of a list with values, or to an empty list. -/
theorem Holds.assign (h : w.Holds parts) (hne : parts j ≠ [] ∨ parts i = []) :
    ∃ w' nodes', w.assign i j = some w' ∧ w'.Holds (Function.update parts i nodes') ∧
      nodes'.values = (parts j).values := by
  by_cases hij : i = j
  · -- an assignment of a list to itself changes nothing
    subst hij
    have hself : (w.lists i).assign w.store (w.lists i) = some (w.lists i, w.store) := by
      have hhead := (h.holds i).head
      unfold LinkedList.assign
      split
      · next hnull =>
        rw [hnull]
        rfl
      · rw [if_pos rfl]
    refine ⟨w.put i (w.lists i, w.store), parts i, ?_, ?_, rfl⟩
    · rw [World.assign, hself]
      rfl
    · exact h.put (h.holds i) (.refl _ _)
  · obtain ⟨result, hresult, nodes', hholds, hvalues, hreplaces⟩ :=
      assign_eq (h.holds i) (h.holds j) (h.disjoint (Ne.symm hij)) hne
    refine ⟨w.put i result, nodes', ?_, h.put hholds hreplaces, hvalues⟩
    rw [World.assign, hresult]
    rfl

/-! ### A local list -/

omit [DecidableEq ι] in
/-- An empty list beside the others. -/
theorem Holds.beside (h : w.Holds parts) :
    (w.beside .new).Holds fun name => name.elim [] parts where
  holds := by
    intro name
    cases name with
    | none => exact new_holds _
    | some k => exact h.holds k
  disjoint := by
    intro name name' hne
    cases name with
    | none => exact fun _ ha => absurd ha List.not_mem_nil
    | some k =>
        cases name' with
        | none => exact fun _ _ => List.not_mem_nil
        | some l => exact h.disjoint fun heq => hne (congrArg some heq)
  owned := by
    intro a ha
    obtain ⟨k, hk⟩ := h.owned a ha
    exact ⟨some k, hk⟩

omit [DecidableEq ι] in
/-- The empty list beside the others is forgotten. -/
theorem Holds.forget (h : (w.beside .new).Holds fun name => name.elim [] parts) :
    w.Holds parts where
  holds := fun k => h.holds (some k)
  disjoint := fun hne => h.disjoint (i := some _) (j := some _) fun heq => hne (Option.some.inj heq)
  owned := by
    intro a ha
    obtain ⟨name, hname⟩ := h.owned a ha
    cases name with
    | none => exact absurd hname List.not_mem_nil
    | some k => exact ⟨k, hname⟩

/-- A change of the value beside the others. -/
theorem update_none_elim {β : Type} (x x' : β) (values : ι → β) :
    Function.update (fun name : Option ι => name.elim x values) none x' =
      fun name => name.elim x' values := by
  funext name
  cases name <;> simp

/-- A change of one of the others. -/
theorem update_some_elim {β : Type} (x x' : β) (values : ι → β) (i : ι) :
    Function.update (fun name : Option ι => name.elim x values) (some i) x' =
      fun name => name.elim x (Function.update values i x') := by
  funext name
  cases name with
  | none => simp
  | some k => by_cases hki : k = i <;> simp [Function.update, hki]

variable {tempList : LinkedList} {tempNodes : Nodes ItemType}

/-- The list beside the others gets other nodes. -/
theorem Holds.put_beside (h : (w.beside tempList).Holds fun name => name.elim tempNodes parts)
    (result : LinkedList × Store (Node ItemType)) {nodes' : Nodes ItemType}
    (hholds : result.1.Holds result.2 nodes')
    (hreplaces : Replaces w.store result.2 tempNodes.addresses nodes'.addresses) :
    (World.beside ⟨result.2, w.lists⟩ result.1).Holds fun name => name.elim nodes' parts := by
  have hput := Holds.put (i := none) h hholds hreplaces
  rw [update_none_elim] at hput
  simpa only [World.put, World.beside, update_none_elim] using hput

/-- An assignment to one of the others, from one of them or from the list beside them. -/
theorem Holds.assign_beside (h : (w.beside tempList).Holds fun name => name.elim tempNodes parts)
    (i : ι) (name : Option ι)
    (hne : name.elim tempNodes parts ≠ [] ∨ parts i = []) :
    ∃ result nodes', (w.lists i).assign w.store (name.elim tempList w.lists) = some result ∧
      ((w.put i result).beside tempList).Holds
        (fun name => name.elim tempNodes (Function.update parts i nodes')) ∧
      nodes'.values = (name.elim tempNodes parts).values := by
  obtain ⟨w', nodes', hassign, hholds, hvalues⟩ := Holds.assign (i := some i) (j := name) h hne
  obtain ⟨result, hresult, rfl⟩ := Option.map_eq_some_iff.1 hassign
  refine ⟨result, nodes', hresult, ?_, hvalues⟩
  rw [update_some_elim] at hholds
  simpa only [World.put, World.beside, update_some_elim] using hholds

/-- Nodes with the same values are there or not there together. -/
theorem eq_nil_iff_of_values {nodes nodes' : Nodes ItemType} (h : nodes.values = nodes'.values) :
    nodes = [] ↔ nodes' = [] := by
  have hlength := congrArg List.length h
  rw [Nodes.values, Nodes.values, List.length_map, List.length_map] at hlength
  rw [← List.length_eq_zero_iff, ← List.length_eq_zero_iff, hlength]

/-- `swap` exchanges two lists that are both empty or both not. -/
theorem Holds.swap {this other : ι} (h : w.Holds parts)
    (hempty : parts this = [] ↔ parts other = []) :
    ∃ w' parts', w.swap this other = some w' ∧ w'.Holds parts' ∧
      (parts' this).values = (parts other).values ∧
      (parts' other).values = (parts this).values := by
  -- `temp` is a copy of the other list
  obtain ⟨⟨temp, s₁⟩, hcopy, tempNodes, htemp, htempValues, hreplaces⟩ := copy_eq (h.holds other)
  have h₁ := h.beside.put_beside _ htemp hreplaces
  -- the other list becomes this one, and this one becomes `temp`
  obtain ⟨result₂, nodes₂, hassign₂, h₂, hvalues₂⟩ :=
    h₁.assign_beside other (some this) (Decidable.or_iff_not_imp_right.2 fun hother hthis =>
      hother (hempty.1 hthis))
  have hother₂ : (Function.update parts other nodes₂ other).values = (parts this).values := by
    rw [Function.update_self]
    exact hvalues₂
  have hne₃ : tempNodes ≠ [] ∨ Function.update parts other nodes₂ this = [] := by
    by_cases hother : parts other = []
    · right
      by_cases hsame : this = other
      · rw [hsame, Function.update_self, eq_nil_iff_of_values hvalues₂]
        exact hempty.2 hother
      · rw [Function.update_of_ne hsame]
        exact hempty.2 hother
    · exact .inl fun hnull => hother ((eq_nil_iff_of_values htempValues).1 hnull)
  obtain ⟨result₃, nodes₃, hassign₃, h₃, hvalues₃⟩ := h₂.assign_beside this none hne₃
  -- `temp` is deleted
  have htemp₃ := h₃.holds none
  obtain ⟨s₄, hdelete, hreplaces₄⟩ := deleteFrom_eq htemp₃.line htemp₃.nodup
    (Nat.lt_succ_of_le (htemp₃.line.length_le_limit htemp₃.nodup))
  have h₄ := (h₃.put_beside (.new, s₄) (new_holds s₄) hreplaces₄).forget
  refine ⟨_, _, ?_, h₄, ?_, ?_⟩
  · have hdestroy : temp.destroy ((World.put ⟨s₁, w.lists⟩ other result₂).put this result₃).store =
        some s₄ := by
      rw [LinkedList.destroy, show temp.head = first none tempNodes from htemp.head]
      exact hdelete
    have hassign₂' : (w.lists other).assign s₁ (w.lists this) = some result₂ := hassign₂
    have hassign₃' : ((World.put ⟨s₁, w.lists⟩ other result₂).lists this).assign
        (World.put ⟨s₁, w.lists⟩ other result₂).store temp = some result₃ := hassign₃
    simp only [World.swap, World.assign, hcopy, hassign₂', Option.map_some, Option.bind_eq_bind,
      Option.bind_some, hassign₃', hdestroy]
  · rw [Function.update_self]
    exact hvalues₃.trans htempValues
  · by_cases hsame : other = this
    · subst hsame
      rw [Function.update_self]
      exact hvalues₃.trans htempValues
    · rw [Function.update_of_ne hsame]
      exact hother₂

/-! ### Built lists -/

/-- Lists that were built by insertions are disjoint lines. -/
theorem Built.exists_holds [LinearOrder ItemType] (h : Built w) : ∃ parts, w.Holds parts := by
  induction h with
  | start choices =>
      refine ⟨fun _ => [], fun _ => new_holds _, fun _ _ ha => absurd ha List.not_mem_nil,
        fun a ha => absurd rfl ha⟩
  | insertToFront i val _ ih =>
      obtain ⟨parts, hparts⟩ := ih
      obtain ⟨nodes', hholds, -, hreplaces⟩ := insertToFront_eq (hparts.holds i) val
      exact ⟨_, hparts.put hholds hreplaces⟩
  | insertToRear i val _ hresult ih =>
      obtain ⟨parts, hparts⟩ := ih
      obtain ⟨result, heq, nodes', hholds, -, hreplaces⟩ := insertToRear_eq (hparts.holds i) val
      obtain rfl := Option.some.inj (heq.symm.trans hresult)
      exact ⟨_, hparts.put hholds hreplaces⟩
  | addItem i val fuel _ hresult ih =>
      obtain ⟨parts, hparts⟩ := ih
      obtain ⟨values, nodes', hholds, -, hreplaces⟩ := addItem_holds (hparts.holds i) hresult
      exact ⟨_, hparts.put hholds hreplaces⟩

omit [DecidableEq ι] in
/-- A list is empty when it has no nodes. -/
theorem Holds.isEmpty_iff (h : w.Holds parts) (i : ι) :
    (w.lists i).isEmpty = true ↔ parts i = [] := by
  rw [LinkedList.isEmpty, (h.holds i).head, decide_eq_true_iff]
  cases parts i <;> simp

omit [DecidableEq ι] in
/-- Only a list without nodes has no head. -/
theorem Holds.head_eq_none_iff (h : w.Holds parts) (i : ι) :
    (w.lists i).head = none ↔ parts i = [] := by
  rw [← h.isEmpty_iff, LinkedList.isEmpty, decide_eq_true_iff]

omit [DecidableEq ι] in
/-- A list that prints no values has no head. -/
theorem head_eq_none_of_values (h : w.values i = some []) : (w.lists i).head = none := by
  rw [World.values, LinkedList.printList] at h
  cases hhead : (w.lists i).head with
  | none => rfl
  | some a =>
      rw [hhead, LinkedList.valuesFrom] at h
      obtain ⟨node, -, h⟩ := Option.bind_eq_some_iff.1 h
      obtain ⟨values, -, h⟩ := Option.bind_eq_some_iff.1 h
      cases h

/-- The assignment of an empty list leaves the head as it is. -/
theorem head_of_assign {rhs : LinkedList} {result : LinkedList × Store (Node ItemType)}
    (h : list.assign s rhs = some result) (hnull : rhs.head = none) : result.1 = list := by
  rw [LinkedList.assign, if_pos hnull] at h
  obtain ⟨s', -, h⟩ := Option.bind_eq_some_iff.1 h
  cases h
  rfl

/-- Exactly the assignments of lists with values and those to empty lists are right. -/
theorem Holds.assigns_iff (h : w.Holds parts) (a b : ι) :
    w.Assigns a b ↔ (w.lists b).isEmpty = false ∨ (w.lists a).isEmpty = true := by
  rw [← Bool.not_eq_true, h.isEmpty_iff, h.isEmpty_iff]
  constructor
  · intro hassigns
    obtain ⟨w', hassign, hvalues, -⟩ := hassigns
    by_contra hnot
    rw [not_or, not_not] at hnot
    obtain ⟨hb, ha⟩ := hnot
    obtain ⟨result, hresult, rfl⟩ := Option.map_eq_some_iff.1 hassign
    rw [h.values, hb] at hvalues
    have hhead := head_eq_none_of_values hvalues
    -- the head of `a` is still the old one
    simp only [World.put, Function.update_self,
      head_of_assign hresult ((h.head_eq_none_iff b).2 hb)] at hhead
    exact ha ((h.head_eq_none_iff a).1 hhead)
  · intro hne
    obtain ⟨w', nodes', hassign, hholds, hvalues⟩ := h.assign (i := a) (j := b) hne
    refine ⟨w', hassign, ?_, ?_, hholds.noDangling⟩
    · rw [hholds.values, h.values, Function.update_self, hvalues]
    · rw [hholds.values, h.values]
      by_cases hab : b = a
      · subst hab
        rw [Function.update_self, hvalues]
      · rw [Function.update_of_ne hab]

/-- A right swap is one of two lists that are both empty or both not. -/
theorem Holds.empty_iff_of_swaps (h : w.Holds parts) {a b : ι} (hswaps : w.Swaps a b) :
    parts a = [] ↔ parts b = [] := by
  obtain ⟨w', hswap, hvaluesA, hvaluesB, -⟩ := hswaps
  by_contra hnot
  have hne : a ≠ b := by
    intro heq
    subst heq
    exact hnot Iff.rfl
  obtain ⟨⟨temp, s₁⟩, hcopy, hswap⟩ := Option.bind_eq_some_iff.1 hswap
  obtain ⟨w₂, hassign₂, hswap⟩ := Option.bind_eq_some_iff.1 hswap
  obtain ⟨result₂, hresult₂, rfl⟩ := Option.map_eq_some_iff.1 hassign₂
  obtain ⟨result₃, hresult₃, hswap⟩ := Option.bind_eq_some_iff.1 hswap
  obtain ⟨s₄, -, hswap⟩ := Option.bind_eq_some_iff.1 hswap
  obtain rfl := Option.some.inj hswap
  rw [h.values] at hvaluesA hvaluesB
  by_cases hb : parts b = []
  · -- the copy is empty, so the second assignment leaves the head of `a`
    have htemp : temp.head = none := by
      rw [LinkedList.copy, if_pos ((h.head_eq_none_iff b).2 hb)] at hcopy
      cases hcopy
      rfl
    rw [hb] at hvaluesA
    have hnull := head_eq_none_of_values hvaluesA
    simp only [World.put, Function.update_self, head_of_assign hresult₃ htemp,
      Function.update_of_ne hne] at hnull
    exact hnot (iff_of_true ((h.head_eq_none_iff a).1 hnull) hb)
  · -- the first assignment leaves the head of `b`
    by_cases ha : parts a = []
    · rw [ha] at hvaluesB
      have hnull := head_eq_none_of_values hvaluesB
      simp only [World.put, Function.update_of_ne (Ne.symm hne), Function.update_self,
        head_of_assign hresult₂ ((h.head_eq_none_iff a).2 ha)] at hnull
      exact hb ((h.head_eq_none_iff b).1 hnull)
    · exact hnot (iff_of_false ha hb)

/-- Exactly the swaps of two lists with values and those of two empty lists are right. -/
theorem Holds.swaps_iff (h : w.Holds parts) (a b : ι) :
    w.Swaps a b ↔ (w.lists a).isEmpty = (w.lists b).isEmpty := by
  rw [Bool.eq_iff_iff, h.isEmpty_iff, h.isEmpty_iff]
  constructor
  · exact h.empty_iff_of_swaps
  · intro hempty
    obtain ⟨w', parts', hswap, hholds, hthis, hother⟩ := h.swap hempty
    refine ⟨w', hswap, ?_, ?_, hholds.noDangling⟩
    · rw [hholds.values, h.values, hthis]
    · rw [hholds.values, h.values, hother]

/-- When lists that were built by insertions are assigned and swapped rightly. -/
theorem assigns_iff_swaps_iff [LinearOrder ItemType] (h : Built w) (a b : ι) :
    (w.Assigns a b ↔ (w.lists b).isEmpty = false ∨ (w.lists a).isEmpty = true) ∧
      (w.Swaps a b ↔ (w.lists a).isEmpty = (w.lists b).isEmpty) := by
  obtain ⟨parts, hparts⟩ := h.exists_holds
  exact ⟨hparts.assigns_iff a b, hparts.swaps_iff a b⟩

/-- A program with a list of one value, under the name `true`, and an empty list. -/
def oneAndEmpty : World Bool Nat :=
  let w : World Bool Nat := start []
  w.put true ((w.lists true).insertToFront w.store 7)

/-- The empty list can be given the value of the other one. -/
theorem oneAndEmpty_assigns :
    oneAndEmpty.Assigns false true ∧ oneAndEmpty.Swaps true true := by
  have hbuilt : oneAndEmpty.Built := .insertToFront true 7 (.start [])
  have hassigns := (assigns_iff_swaps_iff hbuilt false true).1
  have hswaps := (assigns_iff_swaps_iff hbuilt true true).2
  exact ⟨hassigns.2 (.inl rfl), hswaps.2 rfl⟩

/-- The other list is not emptied by an assignment. -/
theorem not_assigns_empty :
    oneAndEmpty.Built ∧ ¬ oneAndEmpty.Assigns true false ∧ ¬ oneAndEmpty.Swaps true false := by
  have hbuilt : oneAndEmpty.Built := .insertToFront true 7 (.start [])
  obtain ⟨parts, hparts⟩ := hbuilt.exists_holds
  refine ⟨hbuilt, fun h => ?_, fun h => ?_⟩
  · rcases (hparts.assigns_iff true false).1 h with hfull | hnull
    · exact absurd hfull (by decide)
    · exact absurd hnull (by decide)
  · exact absurd ((hparts.swaps_iff true false).1 h) (by decide)

end World

end Coursework.LinkedLists
