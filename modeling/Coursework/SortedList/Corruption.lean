import Coursework.SortedList.Histories
import Mathlib.Data.Finset.Card

/-!
# What the corruption checks catch

`SortedList_delete` looks whether the neighbours of a node point back to it, `SortedList_length`
whether every node it comes to does. `stale_delete` says that the first check refuses a node that
has left its list, whatever happened to the lists since. `length_of_heap` says that the second
one makes the walk end on every finite heap, and that it tells the rings from everything else.
Vocabulary and scope: `Coursework.SortedList.Histories`.
-/

namespace Coursework.SortedList

open Atomic Heap

variable {α : Type} [DecidableEq α] {key : α → Option CString} {heads : Set α}
  {start memory result : Memory (Cell α) α} {ops : List (Op α)}

/-! ## Nodes that have left their list -/

/-- The node after this one does not point back to it. -/
def Detached (memory : Memory (Cell α) α) (node : α) : Prop :=
  ∃ after before, memory (.next node) = some after ∧ memory (.prev after) = some before ∧
    before ≠ node

/-- The first check of `SortedList_delete` refuses a detached node. -/
theorem Detached.delete_returns {element : α} (h : Detached memory element) :
    Returns (program key) memory (.deleteStart element) memory (.deleted 1) := by
  obtain ⟨after, before, hnext, hprev, hne⟩ := h
  have hcompletes : Completes (program key) Set.univ
      (fun result final => result = memory ∧ final = .deleted 1) memory (.deleteStart element) := by
    by_cases hkey : key element = none
    · exact .silent (.deleted 1) (by simp [program, hkey]) (.done rfl ⟨rfl, rfl⟩)
    · refine .silent (.deleteReadNext element) (by simp [program, hkey]) ?_
      refine .load rfl trivial hnext (.load rfl trivial hprev ?_)
      rw [if_pos hne]
      exact .done rfl ⟨rfl, rfl⟩
  obtain ⟨_, _, hret, ⟨rfl, rfl⟩, -⟩ := hcompletes.returns
  exact hret

omit [DecidableEq α] in
/-- A node outside a ring that points into the ring is detached. -/
theorem Detached.of_next_mem {nodes : List α} {node after : α} (hring : Ring result nodes)
    (hnode : node ∉ nodes) (hnext : result (.next node) = some after) (hafter : after ∈ nodes) :
    Detached result node := by
  obtain ⟨before, hbefore, -, hprev⟩ := hring.exists_prev hafter
  exact ⟨after, before, hnext, hprev, ne_of_mem_of_not_mem hbefore hnode⟩

omit [DecidableEq α] in
/-- Making a ring of other nodes keeps a node detached. -/
theorem Detached.frame {nodes : List α} {node : α} (h : Detached memory node)
    (hring : Ring result nodes) (hnode : node ∉ nodes)
    (hnext : result (.next node) = memory (.next node))
    (hprev : ∀ other ∉ nodes, result (.prev other) = memory (.prev other)) :
    Detached result node := by
  obtain ⟨after, before, hafter, hbefore, hne⟩ := h
  by_cases hmem : after ∈ nodes
  · exact .of_next_mem hring hnode (hnext.trans hafter) hmem
  · exact ⟨after, before, hnext.trans hafter, (hprev after hmem).trans hbefore, hne⟩

/-- The node has been inserted into some list. -/
def Inserted (ops : List (Op α)) (element : α) : Prop :=
  ∃ list, .insert list element ∈ ops

/-- A run of complete calls: insertions of keyed nodes that are in no list, and deletions of
nodes that have been inserted before, whether they are in a list or not. -/
inductive Calls (key : α → Option CString) (heads : Set α) (start : Memory (Cell α) α) :
    List (Op α) → Memory (Cell α) α → Prop where
  | start : Calls key heads start [] start
  | insert {ops memory result list element} : Calls key heads start ops memory →
      list ∈ heads → owner ops element = none → (key element).isSome →
      Allocated memory element →
      Returns (program key) memory (.insertStart list element) result .inserted →
      Calls key heads start (ops ++ [.insert list element]) result
  | delete {ops memory result element code} : Calls key heads start ops memory →
      Inserted ops element →
      Returns (program key) memory (.deleteStart element) result (.deleted code) →
      Calls key heads start (ops ++ [.delete element]) result

/-- The lists have their shape, and the nodes that have left them are detached. -/
structure Caught (key : α → Option CString) (heads : Set α) (ops : List (Op α))
    (memory : Memory (Cell α) α) : Prop where
  shape : ∃ contents, Shape key heads ops memory contents
  keyed : ∀ element, Inserted ops element → (key element).isSome
  detached : ∀ element, Inserted ops element → owner ops element = none → Detached memory element

/-- The shape depends only on which list each node is in. -/
theorem Shape.of_owner_eq {ops' : List (Op α)} {contents : α → List α}
    (h : Shape key heads ops memory contents) (howner : owner ops' = owner ops) :
    Shape key heads ops' memory contents where
  headless := h.headless
  owned := howner ▸ h.owned
  ring := h.ring
  member := howner ▸ h.member
  descending := h.descending

omit [DecidableEq α] in
/-- An insertion inserts its node. -/
theorem inserted_insert_iff {list element node : α} :
    Inserted (ops ++ [.insert list element]) node ↔ Inserted ops node ∨ node = element := by
  simp [Inserted, exists_or]

omit [DecidableEq α] in
/-- A deletion inserts nothing. -/
theorem inserted_delete_iff {element node : α} :
    Inserted (ops ++ [.delete element]) node ↔ Inserted ops node := by
  simp [Inserted]

namespace Caught

/-- Nothing has left the lists before the first call. -/
theorem of_initial (hinit : Initial key heads start) : Caught key heads [] start where
  shape := History.start.shape hinit
  keyed := by simp [Inserted]
  detached := by simp [Inserted]

/-- A node that has left its list is on no ring. -/
theorem not_mem (h : Caught key heads ops memory) {contents : α → List α}
    (hshape : Shape key heads ops memory contents) {list node : α} (hlist : list ∈ heads)
    (hnode : Inserted ops node) (hnone : owner ops node = none) : node ∉ list :: contents list :=
  hshape.fresh hlist hnone (h.keyed node hnode)

/-- After an insertion: the new ring has the inserted node, but no node that has left a list. -/
theorem insert {list element : α} (h : Caught key heads ops memory) (hlist : list ∈ heads)
    (howner : owner ops element = none) (hkey : (key element).isSome)
    (halloc : Allocated memory element)
    (hret : Returns (program key) memory (.insertStart list element) result .inserted) :
    Caught key heads (ops ++ [.insert list element]) result := by
  obtain ⟨contents, hshape⟩ := h.shape
  obtain ⟨⟨-, hring⟩, hframe⟩ :=
    (hshape.insert_completes hlist howner hkey halloc).of_returns hret
  have hmem : ∀ node, node ∈ element :: list :: contents list ↔
      node ∈ list :: place key element (contents list) := by
    intro node
    simp only [List.mem_cons, mem_place]
    exact or_left_comm
  have hcells : ∀ field : Cell α, field.node ∉ list :: place key element (contents list) →
      result field = memory field := fun field hfield => hframe field ((hmem _).not.2 hfield)
  refine ⟨⟨_, hshape.insert hlist howner hkey halloc hret⟩, fun node hnode => ?_,
    fun node hnode hnone => ?_⟩
  · rcases inserted_insert_iff.1 hnode with hnode | rfl
    · exact h.keyed node hnode
    · exact hkey
  · have hne : node ≠ element := by
      rintro rfl
      simp [Op.apply] at hnone
    have hold : owner ops node = none := by simpa [Op.apply, hne] using hnone
    have hcall := (inserted_insert_iff.1 hnode).resolve_right hne
    have hout : node ∉ list :: place key element (contents list) := by
      rw [← hmem, List.mem_cons, not_or]
      exact ⟨hne, h.not_mem hshape hlist hcall hold⟩
    exact (h.detached node hcall hold).frame hring hout (hcells (.next node) hout)
      fun other hother => hcells (.prev other) hother

/-- After the deletion of a node in a list: the node still points to its old neighbour, which is on
the ring that is left. -/
theorem delete {list element : α} {code : Int} (h : Caught key heads ops memory)
    (howner : owner ops element = some list)
    (hret : Returns (program key) memory (.deleteStart element) result (.deleted code)) :
    Caught key heads (ops ++ [.delete element]) result := by
  obtain ⟨contents, hshape⟩ := h.shape
  obtain ⟨hlist, hkey⟩ := hshape.owned element list howner
  have hring := hshape.ring list hlist
  obtain ⟨front, back, hcontents⟩ :=
    List.append_of_mem ((hshape.member list hlist element).2 howner)
  rw [hcontents] at hring
  obtain ⟨⟨-, hresult⟩, -⟩ := (delete_unlinks hring hkey).of_returns hret
  have hleft : Ring result (list :: (front ++ back)) := hresult ▸ hring.remove
  have hbefore := getLastD_mem list front back
  have hafter := headD_mem list front back
  have hcells : ∀ field : Cell α, field.node ∉ list :: (front ++ back) →
      result field = memory field := fun field hfield =>
    hresult ▸ unlink_frame hbefore hafter hfield
  refine ⟨⟨_, hshape.delete howner hret⟩, fun node hnode => ?_, fun node hnode hnone => ?_⟩
  · exact h.keyed node (inserted_delete_iff.1 hnode)
  · rcases eq_or_ne node element with rfl | hne
    · have hout : node ∉ list :: (front ++ back) := by
        have hnodup := (Ring.rotate (list :: front) (node :: back) hring).nodup
        simp only [List.cons_append, List.nodup_cons, List.mem_append, List.mem_cons] at hnodup ⊢
        tauto
      exact .of_next_mem hleft hout ((hcells (.next node) hout).trans hring.linked_after.1) hafter
    · have hold : owner ops node = none := by simpa [Op.apply, hne] using hnone
      have hcall := inserted_delete_iff.1 hnode
      have hout : node ∉ list :: (front ++ back) := fun hmem => by
        refine h.not_mem hshape hlist hcall hold ?_
        rw [hcontents]
        simp only [List.mem_cons, List.mem_append] at hmem ⊢
        tauto
      exact (h.detached node hcall hold).frame hleft hout (hcells (.next node) hout)
        fun other hother => hcells (.prev other) hother

/-- After the deletion of a node that has left its list: nothing has changed. -/
theorem delete_again {element : α} {code : Int} (h : Caught key heads ops memory)
    (hcall : Inserted ops element) (hnone : owner ops element = none)
    (hret : Returns (program key) memory (.deleteStart element) result (.deleted code)) :
    Caught key heads (ops ++ [.delete element]) result := by
  obtain ⟨rfl, -⟩ := hret.unique (h.detached element hcall hnone).delete_returns
  have howner : owner (ops ++ [.delete element]) = owner ops := by
    rw [owner_concat, Op.apply, ← hnone, Function.update_eq_self]
  obtain ⟨contents, hshape⟩ := h.shape
  refine ⟨⟨contents, hshape.of_owner_eq howner⟩, fun node hnode => ?_, fun node hnode hnode' => ?_⟩
  · exact h.keyed node (inserted_delete_iff.1 hnode)
  · exact h.detached node (inserted_delete_iff.1 hnode) (howner ▸ hnode')

/-- An insertion of a node in no list returns. -/
theorem insert_returns {list element : α} (h : Caught key heads ops memory) (hlist : list ∈ heads)
    (howner : owner ops element = none) (hkey : (key element).isSome)
    (halloc : Allocated memory element) :
    ∃ result, Returns (program key) memory (.insertStart list element) result .inserted := by
  obtain ⟨contents, hshape⟩ := h.shape
  obtain ⟨result, _, hret, ⟨rfl, -⟩, -⟩ :=
    (hshape.insert_completes hlist howner hkey halloc).returns
  exact ⟨result, hret⟩

/-- A deletion of a node inserted before returns. -/
theorem delete_returns {element : α} (h : Caught key heads ops memory)
    (hcall : Inserted ops element) :
    ∃ result code, Returns (program key) memory (.deleteStart element) result (.deleted code) := by
  obtain ⟨contents, hshape⟩ := h.shape
  cases howner : owner ops element with
  | none => exact ⟨_, _, (h.detached element hcall howner).delete_returns⟩
  | some list =>
      obtain ⟨result, _, hret, ⟨rfl, -⟩, -⟩ := (hshape.delete_completes howner).returns
      exact ⟨result, 0, hret⟩

end Caught

/-- In every heap reached by calls, the nodes that have left their list are detached. -/
theorem Calls.caught (hinit : Initial key heads start) (h : Calls key heads start ops memory) :
    Caught key heads ops memory := by
  induction h with
  | start => exact .of_initial hinit
  | insert _ hlist howner hkey halloc hret ih => exact ih.insert hlist howner hkey halloc hret
  | @delete ops _ _ element _ _ hcall hret ih =>
      cases howner : owner ops element with
      | none => exact ih.delete_again hcall howner hret
      | some list => exact ih.delete howner hret

/-- In every heap reached by calls, `SortedList_delete` of a list head, or of a node that has been
inserted before but is in no list now, returns 1 and changes nothing. -/
theorem stale_delete (hinit : Initial key heads start) (h : Calls key heads start ops memory)
    {element : α} (helement : element ∈ heads ∨ Inserted ops element ∧ owner ops element = none) :
    Returns (program key) memory (.deleteStart element) memory (.deleted 1) := by
  rcases helement with hhead | ⟨hcall, hnone⟩
  · have hkey : key element = none := (hinit element hhead).2.2
    have hstep : next (program key) (memory, .deleteStart element) = some (memory, .deleted 1) :=
      next_pass (by simp [program, hkey])
    exact ⟨rfl, 1, by simp [run, hstep]⟩
  · exact ((h.caught hinit).detached element hcall hnone).delete_returns

/-- A node of the pool is inserted and deleted; deleting it once more changes nothing. -/
theorem pool_stale_delete : ∃ memory, Calls poolKey {0} poolStart [.insert 0 1, .delete 1] memory ∧
    Returns (program poolKey) memory (.deleteStart 1) memory (.deleted 1) := by
  have hstart : Caught poolKey {0} [] poolStart := .of_initial pool_initial
  obtain ⟨first, hfirst⟩ := hstart.insert_returns (show (0 : Fin 3) ∈ {0} from rfl)
    (show owner [] 1 = none from rfl) rfl ⟨rfl, rfl⟩
  have hone : Calls poolKey {0} poolStart [.insert 0 1] first :=
    Calls.start.insert rfl rfl rfl ⟨rfl, rfl⟩ hfirst
  have hcall : Inserted [Op.insert 0 1] (1 : Fin 3) := ⟨0, by simp⟩
  obtain ⟨second, code, hsecond⟩ := (hone.caught pool_initial).delete_returns hcall
  have htwo : Calls poolKey {0} poolStart [.insert 0 1, .delete 1] second :=
    hone.delete hcall hsecond
  exact ⟨second, htwo, stale_delete pool_initial htwo (.inr ⟨⟨0, by simp⟩, by decide⟩)⟩

/-! ## Arbitrary heaps -/

/-- The functions where `int` has 32 bits: counting beyond `INT_MAX` is undefined. -/
def intProgram (key : α → Option CString) : Control α → Action (Cell α) α (Control α)
  | .lengthAdvance list lookup count =>
      if count + 1 < 2 ^ 31 then program key (.lengthAdvance list lookup count) else .fault
  | control => program key control

/-- All pointers of these nodes lead to these nodes. -/
def Closed (heap : Finset α) (memory : Memory (Cell α) α) : Prop :=
  ∀ node ∈ heap, (∃ after ∈ heap, memory (.next node) = some after) ∧
    ∃ before ∈ heap, memory (.prev node) = some before

/-- What `SortedList_length` finds out about the nodes behind a head. -/
def Measures (memory : Memory (Cell α) α) (list : α) (n : Int) : Prop :=
  (∃ nodes, n = nodes.length ∧ Ring memory (list :: nodes)) ∨
    n = -1 ∧ ∀ nodes, ¬ Ring memory (list :: nodes)

namespace Measures

variable {list : α} {n : Int}

omit [DecidableEq α] in
/-- The head has at most one ring. -/
theorem length_eq {nodes others : List α} (h : Ring memory (list :: nodes))
    (hother : Ring memory (list :: others)) : nodes.length = others.length := by
  have hle : ∀ {nodes others : List α}, Ring memory (list :: nodes) →
      Ring memory (list :: others) → nodes.length ≤ others.length := by
    intro nodes others h hother
    have hsubset : list :: nodes ⊆ list :: others :=
      List.cons_subset.2 ⟨List.mem_cons_self, fun node hnode => ?_⟩
    · simpa using (h.nodup.subperm hsubset).length_le
    · have hchain := (ring_cons_iff.1 h).2
      exact hother.chain_mem List.mem_cons_self hchain node (by simp [hnode])
  exact (hle h hother).antisymm (hle hother h)

omit [DecidableEq α] in
/-- The result counts the nodes of the ring. -/
theorem eq_iff (h : Measures memory list n) (count : Nat) :
    n = count ↔ ∃ nodes, nodes.length = count ∧ Ring memory (list :: nodes) := by
  constructor
  · rintro rfl
    rcases h with ⟨nodes, heq, hring⟩ | ⟨hneg, -⟩
    · exact ⟨nodes, by omega, hring⟩
    · omega
  · rintro ⟨nodes, rfl, hring⟩
    rcases h with ⟨others, rfl, hother⟩ | ⟨-, hnone⟩
    · exact congrArg _ (length_eq hother hring)
    · exact absurd hring (hnone nodes)

omit [DecidableEq α] in
/-- The result is -1 if there is no ring. -/
theorem eq_neg_one_iff (h : Measures memory list n) :
    n = -1 ↔ ∀ nodes, ¬ Ring memory (list :: nodes) := by
  rcases h with ⟨nodes, rfl, hring⟩ | ⟨rfl, hnone⟩
  · exact ⟨fun hneg => by omega, fun hnone => absurd hring (hnone nodes)⟩
  · exact ⟨fun _ => hnone, fun _ => rfl⟩

end Measures

variable {heap : Finset α}

omit [DecidableEq α] in
/-- A chain from the head does not leave the ring of the head, so a broken link behind one of its
nodes says that there is no ring. -/
theorem not_ring_of_broken {list node after back : α} {path : List α}
    (hchain : List.IsChain (Linked memory) (list :: path)) (hnode : node ∈ list :: path)
    (hnext : memory (.next node) = some after) (hprev : memory (.prev after) = some back)
    (hne : back ≠ node) (nodes : List α) : ¬ Ring memory (list :: nodes) := by
  intro hring
  have hmem : node ∈ list :: nodes := by
    rcases List.mem_cons.1 hnode with rfl | hnode
    · exact List.mem_cons_self
    · exact hring.chain_mem List.mem_cons_self hchain node hnode
  obtain ⟨_, -, hforth, hback⟩ := hring.exists_next hmem
  obtain rfl := Option.some.inj (hnext.symm.trans hforth)
  exact hne (Option.some.inj (hprev.symm.trans hback))

/-- The counting loop. The nodes passed are a chain from the head that has not come back to it, so
they are all different, and their number is bounded by the size of the heap. -/
theorem length_loop_total (hcard : heap.card < 2 ^ 31) (hclosed : Closed heap memory)
    {list lookup : α} (front : List α)
    (hchain : List.IsChain (Linked memory) (list :: (front ++ [lookup])))
    (hfront : list ∉ front) (hheap : ∀ node ∈ list :: (front ++ [lookup]), node ∈ heap) :
    Completes (intProgram key) Set.univ
      (fun result final => result = memory ∧ ∃ n, final = .measured n ∧ Measures memory list n)
      memory (.lengthTest list lookup front.length) := by
  rcases eq_or_ne lookup list with rfl | hne
  -- back at the head: the nodes passed are its ring
  · have hopen : List.IsChain (Linked memory) (lookup :: front) := by
      rw [← List.cons_append, chain_concat_iff (by simp)] at hchain
      exact hchain.1
    have hring := ring_cons_iff.2 ⟨nodup_of_chain hopen hfront, hchain⟩
    refine .silent (.measured front.length) (by simp [intProgram, program]) ?_
    exact .done rfl ⟨rfl, _, rfl, .inl ⟨front, rfl, hring⟩⟩
  -- one more node, whose links are read
  · have hnot : list ∉ front ++ [lookup] := by simp [hfront, hne.symm]
    have hlength : front.length + 2 ≤ heap.card := by
      have hle := Finset.card_le_card (s := (list :: (front ++ [lookup])).toFinset) (t := heap)
        fun node hnode => hheap node (List.mem_toFinset.1 hnode)
      rw [List.toFinset_card_of_nodup (nodup_of_chain hchain hnot), List.length_cons,
        List.length_append, List.length_singleton] at hle
      exact hle
    obtain ⟨⟨after, hafter, hnext⟩, -⟩ := hclosed lookup (hheap lookup (by simp))
    obtain ⟨-, back, -, hprev⟩ := hclosed after hafter
    refine .silent (.lengthReadNext list lookup front.length) ?_ ?_
    · simp [intProgram, program, hne]
    refine .load rfl trivial hnext (.load rfl trivial hprev ?_)
    rcases eq_or_ne back lookup with rfl | hback
    · rw [if_neg (not_not_intro rfl)]
      have hint : (front.length : Int) + 1 < 2 ^ 31 := by omega
      refine .load (by simp only [intProgram, if_pos hint]; rfl) trivial hnext ?_
      have hlonger : List.IsChain (Linked memory) (list :: ((front ++ [back]) ++ [after])) := by
        rw [← List.cons_append, chain_concat_iff (by simp)]
        exact ⟨hchain, by simpa using ⟨hnext, hprev⟩⟩
      have hin : ∀ node ∈ list :: ((front ++ [back]) ++ [after]), node ∈ heap := by
        rw [← List.cons_append]
        exact List.forall_mem_append.2 ⟨hheap, by simpa using hafter⟩
      have hrest := length_loop_total hcard hclosed (front ++ [back]) hlonger hnot hin
      simpa using hrest
    · rw [if_pos hback]
      have hnone := not_ring_of_broken hchain (by simp) hnext hprev hback
      exact .done rfl ⟨rfl, _, rfl, .inr ⟨rfl, hnone⟩⟩
  termination_by heap.card - front.length

/-- On every heap of fewer than `2 ^ 31` nodes, however its pointers are corrupted, the loop of
`SortedList_length` ends. It returns the number of the other nodes on the ring of the head if the
head is on a ring, and -1 otherwise. -/
theorem length_of_heap (hcard : heap.card < 2 ^ 31) (hclosed : Closed heap memory) {list : α}
    (hlist : list ∈ heap) :
    ∃ n, Returns (intProgram key) memory (.lengthStart list) memory (.measured n) ∧
      (∀ count : Nat, n = count ↔ ∃ nodes, nodes.length = count ∧ Ring memory (list :: nodes)) ∧
      (n = -1 ↔ ∀ nodes, ¬ Ring memory (list :: nodes)) := by
  obtain ⟨⟨lookup, hlookup, hnext⟩, -⟩ := hclosed list hlist
  obtain ⟨-, back, -, hprev⟩ := hclosed lookup hlookup
  have hcompletes : Completes (intProgram key) Set.univ
      (fun result final => result = memory ∧ ∃ n, final = .measured n ∧ Measures memory list n)
      memory (.lengthStart list) := by
    refine .load rfl trivial hnext (.load rfl trivial hprev ?_)
    rcases eq_or_ne back list with rfl | hback
    · rw [if_neg (not_not_intro rfl)]
      exact length_loop_total hcard hclosed [] (by simpa using ⟨hnext, hprev⟩) List.not_mem_nil
        (by simpa using ⟨hlist, hlookup⟩)
    · rw [if_pos hback]
      have hnone := not_ring_of_broken (List.isChain_singleton list) List.mem_cons_self hnext hprev
        hback
      exact .done rfl ⟨rfl, _, rfl, .inr ⟨rfl, hnone⟩⟩
  obtain ⟨_, _, hret, ⟨rfl, n, rfl, hn⟩, -⟩ := hcompletes.returns
  exact ⟨n, hret, hn.eq_iff, hn.eq_neg_one_iff⟩

/-- The head leads to node 1, and nodes 1 and 2 lead to each other: a cycle without the head. -/
def lasso : Memory (Cell (Fin 3)) (Fin 3)
  | .next 0 => some 1
  | .next 1 => some 2
  | .next 2 => some 1
  | .prev 0 => some 0
  | .prev 1 => some 0
  | .prev 2 => some 1

/-- The length of the lasso. -/
theorem lasso_length : ∃ n,
    Returns (intProgram poolKey) lasso (.lengthStart 0) lasso (.measured n) ∧
    (∀ count : Nat, n = count ↔ ∃ nodes, nodes.length = count ∧ Ring lasso (0 :: nodes)) ∧
    (n = -1 ↔ ∀ nodes, ¬ Ring lasso (0 :: nodes)) := by
  have hclosed : Closed ({0, 1, 2} : Finset (Fin 3)) lasso := by
    unfold Closed
    decide
  exact length_of_heap (by decide) hclosed (by decide)

end Coursework.SortedList
