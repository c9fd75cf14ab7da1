import Coursework.LinkedLists.Editing

/-!
# The reversal in place

`reverseList` exchanges values between a front pointer and a descending index. The nodes stay, so a
list of nodes of three parts describes the loop: the outer ones have been exchanged and have equal
length, and the nodes between are still to be reversed (`reverseFrom_eq`). With no node left between
them the test `k >= size() / 2` fails, and a single one exchanges its value with itself.
`World.Edited` gathers what these modules say into one invariant of programs.
Vocabulary and scope: `Coursework.LinkedLists.Program`.
-/

namespace Coursework.LinkedLists

open Heap

variable {ItemType : Type} {list : LinkedList} {s s' : Store (Node ItemType)}
  {nodes front mid back : Nodes ItemType} {x y : Nat × ItemType}

/-! ## `size`, `get` and `set` -/

/-- The loop of `size` counts the nodes from its pointer on. -/
theorem sizeFrom_eq {fuel : Nat} (h : Line s nodes none) (hfuel : nodes.length < fuel) (i : Int) :
    LinkedList.sizeFrom s fuel (first none nodes) i = some (i + nodes.length) := by
  induction hfuel using Loops.walk_induction generalizing i with
  | nil fuel =>
      show some i = _
      simp
  | cons node nodes fuel _ ih =>
      rw [first_cons, LinkedList.sizeFrom, h.1]
      show LinkedList.sizeFrom s fuel (first none nodes) (i + 1) = _
      rw [ih h.2, List.length_cons,
        show i + 1 + (nodes.length : Int) = i + (nodes.length + 1 : Nat) by push_cast; omega]

/-- `size` counts the nodes. -/
theorem size_eq (h : list.Holds s nodes) : list.size s = some (nodes.length : Int) := by
  rw [LinkedList.size, h.head,
    sizeFrom_eq h.line (Nat.lt_succ_of_le (h.line.length_le_limit h.nodup)), Int.zero_add]

/-- The loop of `get` counts down to the node with its index. -/
theorem getFrom_eq {fuel a : Nat} (front : Nodes ItemType) (h : Line s (front ++ x :: back) none)
    (hfuel : front.length < fuel) (ha : first none (front ++ x :: back) = some a) :
    LinkedList.getFrom s fuel a front.length = some (some x.2) := by
  induction hfuel using Loops.walk_induction generalizing a with
  | nil fuel =>
      cases ha
      rw [LinkedList.getFrom, h.1]
      rfl
  | cons node front fuel _ ih =>
      cases ha
      obtain ⟨b, hb⟩ := exists_first none front x back
      have hcell : s.cell? node.1 = some ⟨node.2, some b⟩ := hb ▸ h.1
      have hpos : ((front.length + 1 : Nat) : Int) ≠ 0 := by omega
      rw [LinkedList.getFrom, hcell, List.length_cons]
      simp only [Option.bind_eq_bind, Option.bind_some, if_neg hpos]
      rw [show ((front.length + 1 : Nat) : Int) - 1 = front.length by omega]
      exact ih h.2 hb

/-- `get` in range. -/
theorem get_eq (h : list.Holds s (front ++ x :: back)) :
    list.get s front.length = some (some x.2) := by
  obtain ⟨a, ha⟩ := exists_first none front x back
  have hlength := h.line.length_le_limit h.nodup
  rw [List.length_append, List.length_cons] at hlength
  rw [LinkedList.get, h.head, ha, size_eq h]
  simp only [Option.bind_eq_bind, Option.bind_some]
  split
  · next hone =>
    -- the only node is read without the loop
    obtain rfl : front = [] := List.length_eq_zero_iff.1 (by omega)
    cases ha
    rw [h.line.1]
    rfl
  · exact getFrom_eq front h.line (by omega) ha

/-- The loop of `set` counts down to the node with its index. -/
theorem advance_eq {fuel : Nat} (front : Nodes ItemType) (h : Line s (front ++ back) none)
    (hfuel : front.length < fuel) :
    LinkedList.advance s fuel (first none (front ++ back)) front.length =
      some (first none back) := by
  induction hfuel using Loops.walk_induction with
  | nil fuel =>
      rfl
  | cons node front fuel _ ih =>
      have hpos : ((front.length + 1 : Nat) : Int) ≠ 0 := by omega
      have hcell : s.cell? node.1 = some ⟨node.2, first none (front ++ back)⟩ := h.1
      rw [List.cons_append, first_cons, LinkedList.advance, List.length_cons, if_neg hpos]
      simp only [Option.bind_eq_bind, Store.load_some, hcell, Option.bind_some]
      rw [show ((front.length + 1 : Nat) : Int) - 1 = front.length by omega]
      exact ih h.2

/-- The value of a node is changed. -/
theorem write_eq (h : list.Holds s (front ++ x :: back)) (val : ItemType) :
    ∃ s', (s.modify (some x.1) fun node => { node with value := val }) = some s' ∧
      list.Holds s' (front ++ (x.1, val) :: back) ∧
      Confined s s' (Nodes.addresses (front ++ x :: back))
        (Nodes.addresses (front ++ (x.1, val) :: back)) := by
  obtain ⟨hfront, hcell, hback⟩ := line_append.1 h.line
  have haddresses : Nodes.addresses (front ++ (x.1, val) :: back) =
      Nodes.addresses (front ++ x :: back) := by simp
  have hnodup := haddresses ▸ h.nodup
  refine ⟨_, Store.modify_eq hcell _, ⟨?_, hfront.relink hback hnodup, hnodup⟩, ⟨?_, ?_⟩⟩
  · rw [h.head, first_append, first_append]
    rfl
  · intro a ha _
    have hne : a ≠ x.1 := fun heq => ha (by simp [heq])
    rw [Store.cell?_set, if_neg hne]
  · rw [haddresses]
    exact fun a ha => .inl ha

/-- `set` in range. -/
theorem set_eq (h : list.Holds s (front ++ x :: back)) (val : ItemType) :
    ∃ s', list.set s front.length val = some s' ∧
      list.Holds s' (front ++ (x.1, val) :: back) ∧
      Confined s s' (Nodes.addresses (front ++ x :: back))
        (Nodes.addresses (front ++ (x.1, val) :: back)) := by
  obtain ⟨s', hs', hholds⟩ := write_eq h val
  have hlength := h.line.length_le_limit h.nodup
  rw [List.length_append, List.length_cons] at hlength
  have hlt : ¬ (front.length : Int) ≥ (front ++ x :: back).length := by
    rw [List.length_append, List.length_cons]
    omega
  refine ⟨s', ?_, hholds⟩
  rw [LinkedList.set, size_eq h]
  simp only [Option.bind_eq_bind, Option.bind_some, if_neg hlt]
  rw [h.head, advance_eq front h.line (by omega)]
  exact hs'

/-! ## `reverseList` -/

variable [Inhabited ItemType]

/-- The test of the loop fails below the middle. -/
theorem reverseFrom_stop {k : Int} {frontPtr : Ptr} (h : list.Holds s nodes)
    (hk : k < (nodes.length : Int) / 2) (fuel : Nat) :
    LinkedList.reverseFrom list (fuel + 1) s frontPtr k = some ([], s) := by
  rw [LinkedList.reverseFrom, size_eq h]
  simp only [Option.bind_eq_bind, Option.bind_some, if_neg (not_le_of_gt hk)]

/-- One step exchanges the values of the first and the last node of the middle part. -/
theorem reverseFrom_step (h : list.Holds s (front ++ x :: (mid ++ y :: back)))
    (hlength : front.length = back.length) (fuel : Nat) :
    ∃ s', LinkedList.reverseFrom list (fuel + 1) s (some x.1) (front.length + mid.length + 1) =
        (LinkedList.reverseFrom list fuel s' (first none (mid ++ (y.1, x.2) :: back))
          (front.length + mid.length)).map
            (fun result => (((front.length : Int) + mid.length + 1) :: result.1, result.2)) ∧
      list.Holds s' (front ++ (x.1, y.2) :: (mid ++ (y.1, x.2) :: back)) ∧
      Confined s s' (Nodes.addresses (front ++ x :: (mid ++ y :: back)))
        (Nodes.addresses (front ++ (x.1, y.2) :: (mid ++ (y.1, x.2) :: back))) := by
  have hsplit : front ++ x :: (mid ++ y :: back) = front ++ x :: mid ++ y :: back := by simp
  have hsplit' : front ++ x :: mid ++ (y.1, x.2) :: back =
      front ++ x :: (mid ++ (y.1, x.2) :: back) := by simp
  have hk : ((front.length : Int) + mid.length + 1) = (front ++ x :: mid).length := by
    rw [List.length_append, List.length_cons]
    push_cast
    omega
  have hxcell := (line_append.1 h.line).2.1
  have hsize := size_eq h
  rw [hsplit] at h
  have hget := get_eq h
  obtain ⟨s₁, hset, hholds₁, hconfined₁⟩ := set_eq h x.2
  rw [hsplit'] at hholds₁ hconfined₁
  obtain ⟨s₂, hwrite, hholds₂, hconfined₂⟩ := write_eq hholds₁ y.2
  have hxcell₂ := (line_append.1 hholds₂.line).2.1
  rw [← hk] at hget hset
  have htest : ((front.length : Int) + mid.length + 1) ≥
      (front ++ x :: (mid ++ y :: back)).length / 2 := by
    simp only [List.length_append, List.length_cons]
    omega
  refine ⟨s₂, ?_, hholds₂, hsplit ▸ hconfined₁.trans hconfined₂⟩
  rw [LinkedList.reverseFrom, hsize]
  simp only [Option.bind_eq_bind, Option.bind_some, if_pos htest, Store.load_some, hxcell, hget,
    hset, Option.getD_some, hwrite, hxcell₂]
  rw [show ((front.length : Int) + mid.length + 1) - 1 = front.length + mid.length by omega]
  cases LinkedList.reverseFrom list fuel s₂ (first none (mid ++ (y.1, x.2) :: back))
    (front.length + mid.length) <;> rfl

/-- A single node in the middle exchanges its value with itself, and the loop ends. -/
theorem reverseFrom_middle (h : list.Holds s (front ++ x :: back))
    (hlength : front.length = back.length) (fuel : Nat) :
    ∃ s', LinkedList.reverseFrom list (fuel + 2) s (some x.1) front.length =
        some ([(front.length : Int)], s') ∧
      list.Holds s' (front ++ x :: back) ∧
      Confined s s' (Nodes.addresses (front ++ x :: back))
        (Nodes.addresses (front ++ x :: back)) := by
  have hxcell := (line_append.1 h.line).2.1
  obtain ⟨s₁, hset, hholds₁, hconfined₁⟩ := set_eq h x.2
  obtain ⟨s₂, hwrite, hholds₂, hconfined₂⟩ := write_eq hholds₁ x.2
  have hxcell₂ := (line_append.1 hholds₂.line).2.1
  have hlen : (front ++ x :: back).length = 2 * front.length + 1 := by
    rw [List.length_append, List.length_cons]
    omega
  have htest : (front.length : Int) ≥ (front ++ x :: back).length / 2 := by
    rw [hlen]
    omega
  refine ⟨s₂, ?_, hholds₂, hconfined₁.trans hconfined₂⟩
  rw [LinkedList.reverseFrom, size_eq h]
  simp only [Option.bind_eq_bind, Option.bind_some, if_pos htest, Store.load_some, hxcell,
    get_eq h, hset, Option.getD_some, hwrite, hxcell₂]
  have hstop : (front.length : Int) - 1 < ((front ++ (x.1, x.2) :: back).length : Int) / 2 := by
    rw [List.length_append, List.length_cons]
    omega
  rw [reverseFrom_stop hholds₂ hstop fuel]
  rfl

/-- The loop reverses the values of the middle part, by induction on the exchanges that are left.
Every index it uses is one of the middle part. -/
theorem reverseFrom_eq (fuel : Nat) (mid : Nodes ItemType)
    (h : list.Holds s (front ++ (mid ++ back))) (hlength : front.length = back.length)
    (hfuel : mid.length < fuel) :
    ∃ calls s' mid', LinkedList.reverseFrom list fuel s (first none (mid ++ back))
        (front.length + mid.length - 1) = some (calls, s') ∧
      list.Holds s' (front ++ (mid' ++ back)) ∧ mid'.addresses = mid.addresses ∧
      mid'.values = mid.values.reverse ∧
      (∀ k ∈ calls, front.length ≤ k ∧ k < front.length + mid.length) ∧
      Confined s s' (Nodes.addresses (front ++ (mid ++ back)))
        (Nodes.addresses (front ++ (mid' ++ back))) := by
  induction fuel generalizing s front mid back with
  | zero => exact absurd hfuel (Nat.not_lt_zero _)
  | succ fuel ih =>
      rcases mid with - | ⟨x, rest⟩
      · -- nothing is left between the exchanged parts
        refine ⟨[], s, [], ?_, h, rfl, rfl, by simp, .refl s _⟩
        refine reverseFrom_stop h ?_ fuel
        simp only [List.length_append, List.length_nil]
        omega
      · rcases List.eq_nil_or_concat' rest with rfl | ⟨inner, y, rfl⟩
        · obtain ⟨fuel, rfl⟩ := Nat.exists_eq_add_one_of_ne_zero
            (show fuel ≠ 0 from fun heq => by simp [heq] at hfuel)
          obtain ⟨s', hrun, hholds, hconfined⟩ := reverseFrom_middle h hlength fuel
          refine ⟨[(front.length : Int)], s', [x], ?_, hholds, rfl, rfl, ?_, hconfined⟩
          · rw [List.length_singleton,
              show (front.length : Int) + (1 : Nat) - 1 = front.length by push_cast; omega]
            exact hrun
          · intro k hk
            rw [List.mem_singleton.1 hk, List.length_singleton]
            omega
        · have hassoc : front ++ (x :: (inner ++ [y]) ++ back) =
              front ++ x :: (inner ++ y :: back) := by simp
          rw [hassoc] at h
          obtain ⟨s₁, hstep, hholds₁, hconfined₁⟩ := reverseFrom_step h hlength fuel
          have hregroup : ∀ inner' : Nodes ItemType,
              front ++ (x.1, y.2) :: (inner' ++ (y.1, x.2) :: back) =
                front ++ [(x.1, y.2)] ++ (inner' ++ (y.1, x.2) :: back) := fun _ => by simp
          rw [hregroup] at hholds₁ hconfined₁
          obtain ⟨calls, s', inner', hrun, hholds, haddresses, hvalues, hcalls, hconfined⟩ :=
            ih inner hholds₁ (by simp [hlength])
              (by simp only [List.length_cons, List.length_append] at hfuel; omega)
          have hsame : front ++ [(x.1, y.2)] ++ (inner' ++ (y.1, x.2) :: back) =
              front ++ ((x.1, y.2) :: (inner' ++ [(y.1, x.2)]) ++ back) := by simp
          rw [hsame] at hholds hconfined
          refine ⟨((front.length : Int) + inner.length + 1) :: calls, s',
            (x.1, y.2) :: (inner' ++ [(y.1, x.2)]), ?_, hholds, by simp [haddresses],
            by simp [hvalues], ?_, hassoc ▸ hconfined₁.trans hconfined⟩
          · rw [show ((front ++ [(x.1, y.2)]).length : Int) + inner.length - 1 =
              front.length + inner.length by simp; omega] at hrun
            rw [hrun] at hstep
            rw [show (front.length : Int) + (x :: (inner ++ [y])).length - 1 =
              front.length + inner.length + 1 by simp; omega]
            exact hstep
          · intro k hk
            have hlen : ((x :: (inner ++ [y])).length : Int) = inner.length + 2 := by simp; omega
            rw [hlen]
            rcases List.mem_cons.1 hk with rfl | hk
            · omega
            · have hbounds := hcalls k hk
              rw [List.length_append, List.length_singleton] at hbounds
              omega

/-- `reverseList` reverses the values in the nodes of the list. -/
theorem reverseList_eq (h : list.Holds s nodes) :
    ∃ calls s' nodes', list.reverseList s = some (calls, s') ∧ list.Holds s' nodes' ∧
      nodes'.addresses = nodes.addresses ∧ nodes'.values = nodes.values.reverse ∧
      (∀ k ∈ calls, 0 ≤ k ∧ k < nodes.length) ∧
      Confined s s' nodes.addresses nodes'.addresses := by
  have hlength := h.line.length_le_limit h.nodup
  rw [← List.append_nil nodes] at h
  obtain ⟨calls, s', nodes', hrun, hholds, haddresses, hvalues, hcalls, hconfined⟩ :=
    reverseFrom_eq (s.limit + 1) nodes (show list.Holds s ([] ++ (nodes ++ [])) from h) rfl
      (Nat.lt_succ_of_le hlength)
  rw [List.append_nil] at h hrun
  rw [List.nil_append, List.append_nil] at hholds
  simp only [List.nil_append, List.append_nil] at hconfined
  refine ⟨calls, s', nodes', ?_, hholds, haddresses, hvalues, fun k hk => ?_, hconfined⟩
  · rw [LinkedList.reverseList, size_eq h, h.head]
    show LinkedList.reverseFrom list (s.limit + 1) s (first none nodes) (nodes.length - 1) = _
    rw [← hrun, List.length_nil,
      show ((0 : Nat) : Int) + nodes.length - 1 = nodes.length - 1 by omega]
  · have hbounds := hcalls k hk
    rw [List.length_nil] at hbounds
    omega

/-- `reverseList` reverses a list of any length with indices in range, and a second call restores
it. -/
theorem reverseList_reverses (h : list.Holds s nodes) :
    ∃ calls s' nodes', list.reverseList s = some (calls, s') ∧ list.Holds s' nodes' ∧
      nodes'.values = nodes.values.reverse ∧ (∀ k ∈ calls, 0 ≤ k ∧ k < nodes.length) ∧
      ∃ calls' s'', list.reverseList s' = some (calls', s'') ∧ list.Holds s'' nodes := by
  obtain ⟨calls, s', nodes', hrun, hholds, haddresses, hvalues, hcalls, -⟩ := reverseList_eq h
  obtain ⟨calls', s'', nodes'', hrun', hholds', haddresses', hvalues', -⟩ := reverseList_eq hholds
  -- the same addresses with the same values
  have hsame : nodes'' = nodes := by
    rw [hvalues, List.reverse_reverse] at hvalues'
    calc nodes'' = nodes.addresses.zip nodes.values :=
          List.zip_of_prod (haddresses'.trans haddresses) hvalues'
      _ = nodes := (List.zip_of_prod rfl rfl).symm
  exact ⟨calls, s', nodes', hrun, hholds, hvalues, hcalls, calls', s'', hrun', hsame ▸ hholds'⟩

/-- A list of three items. -/
def threeItems : LinkedList × Store (Node Nat) :=
  [9, 7, 5].foldl (fun result val => result.1.insertToFront result.2 val)
    (LinkedList.new, .empty [])

theorem threeItems_holds : threeItems.1.Holds threeItems.2 [(2, 5), (1, 7), (0, 9)] :=
  ⟨rfl, ⟨rfl, rfl, rfl, trivial⟩, by decide⟩

/-- A list of odd and one of even length are reversed and restored. -/
theorem items_reverse :
    (∃ calls s' nodes', threeItems.1.reverseList threeItems.2 = some (calls, s') ∧
      threeItems.1.Holds s' nodes' ∧ nodes'.values = [9, 7, 5] ∧ (∀ k ∈ calls, 0 ≤ k ∧ k < 3) ∧
      ∃ calls' s'', threeItems.1.reverseList s' = some (calls', s'') ∧
        threeItems.1.Holds s'' [(2, 5), (1, 7), (0, 9)]) ∧
    ∃ calls s' nodes', fourItems.1.reverseList fourItems.2 = some (calls, s') ∧
      fourItems.1.Holds s' nodes' ∧ nodes'.values = [9, 7, 5, 2] ∧
      (∀ k ∈ calls, 0 ≤ k ∧ k < 4) ∧
      ∃ calls' s'', fourItems.1.reverseList s' = some (calls', s'') ∧
        fourItems.1.Holds s'' [(3, 2), (2, 5), (1, 7), (0, 9)] :=
  ⟨reverseList_reverses threeItems_holds, reverseList_reverses fourItems_holds⟩

/-! ## Lists that are edited -/

namespace World

variable {ι : Type} [LinearOrder ItemType] {w : World ι ItemType} {parts : ι → Nodes ItemType}
  {i : ι} {result : LinkedList × Store (Node ItemType)}

/-- What the member functions leave of a list. -/
inductive Edits (w : World ι ItemType) (i : ι) : LinkedList × Store (Node ItemType) → Prop where
  | insertToFront (val : ItemType) : Edits w i ((w.lists i).insertToFront w.store val)
  | insertToRear {result : LinkedList × Store (Node ItemType)} (val : ItemType)
      (h : (w.lists i).insertToRear w.store val = some result) : Edits w i result
  | addItem {result : LinkedList × Store (Node ItemType)} (val : ItemType) (fuel : Nat)
      (h : (w.lists i).addItem fuel w.store val = some result) : Edits w i result
  | deleteItem {result : LinkedList × Store (Node ItemType)} (val : ItemType)
      (h : (w.lists i).deleteItem w.store val = some result) : Edits w i result
  | append {result : LinkedList × Store (Node ItemType)} (j : ι)
      (h : (w.lists i).append (w.store.limit + 1) w.store (w.lists j) = some result) :
      Edits w i result
  | reverseList {calls : List Int} {s : Store (Node ItemType)}
      (h : (w.lists i).reverseList w.store = some (calls, s)) : Edits w i (w.lists i, s)

/-- A member function leaves a line of nodes. -/
theorem Edits.holds [DecidableEq ι] (h : Edits w i result) (hlines : w.Lines parts) :
    ∃ nodes', result.1.Holds result.2 nodes' ∧
      Confined w.store result.2 (parts i).addresses nodes'.addresses := by
  have hline := hlines.holds i
  cases h with
  | insertToFront val =>
      obtain ⟨nodes', hholds, -, hreplaces⟩ := insertToFront_eq hline val
      exact ⟨nodes', hholds, hreplaces.toConfined⟩
  | insertToRear val h =>
      obtain ⟨result, heq, nodes', hholds, -, hreplaces⟩ := insertToRear_eq hline val
      obtain rfl := Option.some.inj (heq.symm.trans h)
      exact ⟨nodes', hholds, hreplaces.toConfined⟩
  | addItem val fuel h =>
      obtain ⟨values, nodes', hholds, -, hreplaces⟩ := addItem_holds hline h
      exact ⟨nodes', hholds, hreplaces.toConfined⟩
  | deleteItem val h =>
      by_cases hmem : val ∈ (parts i).values
      · obtain ⟨result, heq, hholds, hconfined⟩ := deleteItem_eq hline hmem
        obtain rfl := Option.some.inj (heq.symm.trans h)
        exact ⟨_, hholds, hconfined⟩
      · obtain ⟨-, rfl⟩ := deleteItem_of_notMem hline hmem h
        exact ⟨_, hline, .refl _ _⟩
  | append j h =>
      by_cases hne : parts i = []
      · rw [append_nil (hne ▸ hline)] at h
        cases h
      · by_cases hij : j = i
        · rw [hij, append_self hline hne] at h
          cases h
        · obtain ⟨result, heq, nodes', hholds, -, hreplaces⟩ :=
            append_eq hline (hlines.holds j) (hlines.disjoint hij) hne
          obtain rfl := Option.some.inj (heq.symm.trans h)
          exact ⟨nodes', hholds, hreplaces.toConfined⟩
  | reverseList h =>
      obtain ⟨calls, s, nodes', heq, hholds, -, -, -, hconfined⟩ := reverseList_eq hline
      obtain ⟨-, rfl⟩ := Prod.mk.inj (Option.some.inj (heq.symm.trans h))
      exact ⟨nodes', hholds, hconfined⟩

/-- The worlds whose lists were edited by member functions. -/
inductive Edited [DecidableEq ι] : World ι ItemType → Prop where
  | start (choices : List Nat) : Edited (start choices)
  | edit {w : World ι ItemType} {i : ι} {result : LinkedList × Store (Node ItemType)}
      (h : Edited w) (hedit : Edits w i result) : Edited (w.put i result)

/-- The lists of every program are disjoint lines of nodes. -/
theorem Edited.exists_lines [DecidableEq ι] (h : Edited w) : ∃ parts, w.Lines parts := by
  induction h with
  | start choices =>
      exact ⟨fun _ => [], fun _ => new_holds _, fun _ _ ha => absurd ha List.not_mem_nil⟩
  | edit _ hedit ih =>
      obtain ⟨parts, hlines⟩ := ih
      obtain ⟨nodes', hholds, hconfined⟩ := hedit.holds hlines
      exact ⟨_, hlines.put hholds hconfined⟩

end World

end Coursework.LinkedLists
