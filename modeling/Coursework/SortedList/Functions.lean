import Coursework.SortedList.Program
import Mathlib.Data.List.Sort

/-!
# What the sorted list functions do to a ring

One completion result for each function of `SortedList.c`, started on a well-formed ring.
Every result says that the function halts without fault, that it touches only the fields of
the ring's nodes (and of the inserted element), and what ring it leaves. The while loops are
handled by induction on the part of the ring still to be walked.
Vocabulary and scope: `Coursework.Atomic.Program`, `Coursework.Heap.Ring`.
-/

namespace Coursework.SortedList

open Atomic Heap

variable {α : Type} [DecidableEq α] {key : α → Option CString}
  {memory : Memory (Cell α) α}

/-- The key string of a node; only meaningful for nodes that have a key. -/
def keyOf (key : α → Option CString) (node : α) : CString :=
  (key node).getD ⟨[], by simp⟩

/-- Every listed node has a key string. -/
def Keyed (key : α → Option CString) (nodes : List α) : Prop :=
  ∀ node ∈ nodes, (key node).isSome

/-- The insertion loop stops in front of the first node with a smaller key. -/
def Before (key : α → Option CString) (element node : α) : Prop :=
  keyOf key node < keyOf key element

instance (element node : α) : Decidable (Before key element node) :=
  inferInstanceAs (Decidable (_ < _))

/-- The node sequence after inserting `element`. -/
def place (key : α → Option CString) (element : α) (nodes : List α) : List α :=
  nodes.orderedInsert (Before key) element

/-- Keys never increase along the list. -/
def Descending (key : α → Option CString) (nodes : List α) : Prop :=
  nodes.Pairwise fun a b => keyOf key b ≤ keyOf key a

omit [DecidableEq α] in
/-- A node with a key string has the key `keyOf` names. -/
theorem key_eq_of_isSome {node : α} (h : (key node).isSome) : key node = some (keyOf key node) := by
  obtain ⟨text, htext⟩ := Option.isSome_iff_exists.1 h
  simp [keyOf, htext]

omit [DecidableEq α] in
/-- Comparing the keys of two nodes that have keys. -/
theorem compare_keys_eq {left right : α} (hleft : (key left).isSome) (hright : (key right).isSome) :
    compareKeys (key left) (key right) =
      some (CString.strcmp (keyOf key left) (keyOf key right)) := by
  rw [key_eq_of_isSome hleft, key_eq_of_isSome hright]
  rfl

/-! ## Insertion -/

/-- From the end of the search loop, the four assignments link the element in front of
`lookup`. -/
theorem link_completes {element lookup before : α} {region : Set (Cell α)}
    {post : Memory (Cell α) α → Control α → Prop}
    (hprev : memory (.prev lookup) = some before) (hnext : (memory (.next before)).isSome)
    (halloc : Allocated memory element) (hlookup : element ≠ lookup) (hbefore : element ≠ before)
    (hregion : ∀ node, node = element ∨ node = lookup ∨ node = before →
      .prev node ∈ region ∧ .next node ∈ region)
    (hpost : post (link memory element before lookup) .inserted) :
    Completes (program key) region post memory (.insertYield element lookup) := by
  obtain ⟨old, hold⟩ := Option.isSome_iff_exists.1 hnext
  obtain ⟨hprevAlloc, hnextAlloc⟩ := halloc
  obtain ⟨oldPrev, holdPrev⟩ := Option.isSome_iff_exists.1 hprevAlloc
  obtain ⟨oldNext, holdNext⟩ := Option.isSome_iff_exists.1 hnextAlloc
  obtain ⟨helementPrev, helementNext⟩ := hregion element (.inl rfl)
  obtain ⟨hlookupPrev, _⟩ := hregion lookup (.inr (.inl rfl))
  obtain ⟨_, hbeforeNext⟩ := hregion before (.inr (.inr rfl))
  refine .pass rfl (.load rfl hlookupPrev hprev ?_)
  refine .store rfl helementPrev holdPrev (.store rfl helementNext (?_ : _ = some oldNext) ?_)
  · simpa using holdNext
  refine .load rfl hlookupPrev (?_ : _ = some before) ?_
  · simpa [Ne.symm hlookup] using hprev
  refine .store rfl hbeforeNext (?_ : _ = some old)
    (.store rfl hlookupPrev (?_ : _ = some before) ?_)
  · simpa [Ne.symm hbefore] using hold
  · simpa [Ne.symm hlookup] using hprev
  · exact .done rfl hpost

/-- Stopping the search anywhere in a ring links the element there. -/
theorem insert_stop_completes {list element : α} {front back : List α}
    (hring : Ring memory (list :: (front ++ back))) (halloc : Allocated memory element)
    (helement : element ∉ list :: (front ++ back)) :
    Completes (program key) (cells (element :: list :: (front ++ back)))
      (fun result final => final = .inserted ∧ Ring result (list :: (front ++ element :: back)))
      memory (.insertYield element (back.headD list)) := by
  have hlink := hring.linked_at front back
  have hlast := getLastD_mem list front back
  have hhead := headD_mem list front back
  refine link_completes hlink.2 (by rw [hlink.1]; rfl) halloc
    (ne_of_mem_of_not_mem hhead helement).symm (ne_of_mem_of_not_mem hlast helement).symm ?_
    ⟨rfl, hring.insert helement⟩
  rintro node (rfl | rfl | rfl)
  · exact ⟨List.mem_cons_self, List.mem_cons_self⟩
  · exact ⟨List.mem_cons_of_mem _ hhead, List.mem_cons_of_mem _ hhead⟩
  · exact ⟨List.mem_cons_of_mem _ hlast, List.mem_cons_of_mem _ hlast⟩

/-- The search loop of `SortedList_insert`, by induction on the nodes not yet passed. -/
theorem insert_loop_completes {list element : α} (hkey : (key element).isSome)
    (halloc : Allocated memory element) (front back : List α)
    (hring : Ring memory (list :: (front ++ back))) (hkeyed : Keyed key back)
    (helement : element ∉ list :: (front ++ back)) :
    Completes (program key) (cells (element :: list :: (front ++ back)))
      (fun result final => final = .inserted ∧
        Ring result (list :: (front ++ place key element back)))
      memory (.insertTest list element (back.headD list)) := by
  induction back generalizing front with
  | nil => exact .pass (by simp [program]) (insert_stop_completes hring halloc helement)
  | cons node back ih =>
      have hnode : node ≠ list := fun heq => by
        have hnodup := hring.nodup
        simp [heq] at hnodup
      have hcompare := compare_keys_eq hkey (hkeyed node (by simp))
      by_cases hbefore : Before key element node
      · have hguard : ¬ CString.strcmp (keyOf key element) (keyOf key node) < 1 := by
          simpa [CString.strcmp_lt_one_iff, Before] using hbefore
        have hplace : place key element (node :: back) = element :: node :: back := by
          simp [place, hbefore]
        rw [hplace]
        refine .pass ?_ (insert_stop_completes hring halloc helement)
        simp [program, hnode, hcompare, hguard]
      · have hguard : CString.strcmp (keyOf key element) (keyOf key node) < 1 := by
          simpa [CString.strcmp_lt_one_iff, Before] using hbefore
        have hplace : place key element (node :: back) = node :: place key element back := by
          simp [place, hbefore]
        refine .silent (.insertAdvance list element node) ?_ ?_
        · simp [program, hnode, hcompare, hguard]
        · refine .load rfl (by simp) hring.linked_after.1 ?_
          have hrest := ih (front ++ [node]) (by simpa using hring)
            (fun n hn => hkeyed n (by simp [hn])) (by simpa using helement)
          simpa [hplace] using hrest

/-- `SortedList_insert` of a keyed node that is not in the ring. -/
theorem insert_completes {list element : α} {nodes : List α} (hring : Ring memory (list :: nodes))
    (hkeyed : Keyed key nodes) (hkey : (key element).isSome) (halloc : Allocated memory element)
    (helement : element ∉ list :: nodes) :
    Completes (program key) (cells (element :: list :: nodes))
      (fun result final => final = .inserted ∧ Ring result (list :: place key element nodes))
      memory (.insertStart list element) := by
  refine .load rfl (by simp) hring.next_head ?_
  simpa using insert_loop_completes hkey halloc [] nodes hring hkeyed helement

/-! ## Deletion -/

/-- `SortedList_delete` of a keyed node of a ring joins its two neighbours. -/
theorem delete_unlinks {list element : α} {front back : List α}
    (hring : Ring memory (list :: (front ++ element :: back))) (hkey : (key element).isSome) :
    Completes (program key) (cells (list :: (front ++ element :: back)))
      (fun result final => final = .deleted 0 ∧
        result = unlink memory (front.getLastD list) (back.headD list))
      memory (.deleteStart element) := by
  obtain ⟨hbeforeNext, hprev⟩ := hring.linked_at front (element :: back)
  obtain ⟨hnext, hafterPrev⟩ := hring.linked_after
  have hbefore := getLastD_mem list front (element :: back)
  have hafter : back.headD list ∈ list :: (front ++ element :: back) := by
    simpa using headD_mem list (front ++ [element]) back
  have hne : element ≠ back.headD list := by
    have hnodup : (element :: (back ++ list :: front)).Nodup :=
      (Ring.rotate (list :: front) (element :: back) hring).nodup
    rw [← Ring.head_rotated list front back]
    exact ne_of_mem_of_not_mem (List.head_mem _) (List.nodup_cons.1 hnodup).1 |>.symm
  simp only [List.headD_cons] at hbeforeNext hprev
  generalize front.getLastD list = before at *
  generalize back.headD list = after at *
  have hmem : element ∈ list :: (front ++ element :: back) := by simp
  refine .silent (.deleteReadNext element) ?_ (.load rfl hmem hnext ?_)
  · have hsome : key element ≠ none := Option.isSome_iff_ne_none.1 hkey
    simp [program, hsome]
  refine .load rfl hafter hafterPrev ?_
  rw [if_neg (not_not_intro rfl)]
  refine .load rfl hmem hprev (.load rfl hbefore hbeforeNext ?_)
  rw [if_neg (not_not_intro rfl)]
  refine .load rfl hmem hnext (.load rfl hmem hprev (.store rfl hafter hafterPrev (.pass rfl ?_)))
  refine .load rfl hmem (show _ = some before by simpa [hne] using hprev) ?_
  refine .load rfl hmem (show _ = some after by simpa using hnext) ?_
  exact .store rfl hbefore (show _ = some element by simpa using hbeforeNext)
    (.done rfl ⟨rfl, rfl⟩)

/-- `SortedList_delete` of a keyed node of a ring leaves the ring of the others. -/
theorem delete_completes {list element : α} {front back : List α}
    (hring : Ring memory (list :: (front ++ element :: back))) (hkey : (key element).isSome) :
    Completes (program key) (cells (list :: (front ++ element :: back)))
      (fun result final => final = .deleted 0 ∧ Ring result (list :: (front ++ back)))
      memory (.deleteStart element) :=
  (delete_unlinks hring hkey).mono le_rfl fun _ _ ⟨hfinal, hresult⟩ =>
    ⟨hfinal, hresult ▸ hring.remove⟩

/-- `SortedList_delete` of a keyed node of a ring, with the remaining nodes in their order. -/
theorem delete_mem_completes {list element : α} {nodes : List α}
    (hring : Ring memory (list :: nodes)) (helement : element ∈ nodes)
    (hkey : (key element).isSome) :
    Completes (program key) (cells (list :: nodes))
      (fun result final => final = .deleted 0 ∧ Ring result (list :: nodes.erase element))
      memory (.deleteStart element) := by
  obtain ⟨front, back, rfl⟩ := List.append_of_mem helement
  have hnotin : element ∉ front := fun hmem => by
    have hnodup := (List.nodup_cons.1 hring.nodup).2
    exact List.disjoint_of_nodup_append hnodup hmem (by simp)
  rw [List.erase_append_right _ hnotin, List.erase_cons_head]
  exact delete_completes hring hkey

/-! ## Search -/

/-- The search loop of `SortedList_lookup`, by induction on the nodes not yet passed. On a
descending ring the early exit is sound: no later node can carry the sought key. -/
theorem lookup_loop_completes {list : α} (sought : CString) (front back : List α)
    (hring : Ring memory (list :: (front ++ back))) (hkeyed : Keyed key back)
    (hsorted : Descending key back) :
    Completes (program key) (cells (list :: (front ++ back)))
      (fun result final => result = memory ∧ ∃ node?, final = .found node? ∧
        (∀ node, node? = some node → node ∈ back ∧ key node = some sought) ∧
        (node? = none → ∀ node ∈ back, key node ≠ some sought))
      memory (.lookupTest list sought (back.headD list)) := by
  induction back generalizing front with
  | nil => exact .pass (by simp [program]) (.done rfl ⟨rfl, none, rfl, by simp, by simp⟩)
  | cons node back ih =>
      have hnode : node ≠ list := fun heq => by
        have hnodup := hring.nodup
        simp [heq] at hnodup
      have hkey := key_eq_of_isSome (hkeyed node (by simp))
      have hcompare : compareKeys (some sought) (key node) =
          some (CString.strcmp sought (keyOf key node)) := by
        rw [hkey]
        rfl
      obtain ⟨hhead, htail⟩ := List.pairwise_cons.1 hsorted
      by_cases hguard : CString.strcmp sought (keyOf key node) < 1
      -- the sought key is not above the key of the node: a match, or one more round
      · refine .silent (.lookupMatch list sought node) ?_ ?_
        · simp [program, hnode, hcompare, hguard]
        by_cases hmatch : CString.strcmp sought (keyOf key node) = 0
        · refine .silent (.found (some node)) ?_ (.done rfl ⟨rfl, _, rfl, ?_, by simp⟩)
          · simp [program, hcompare, hmatch]
          · rintro _ ⟨⟩
            exact ⟨by simp, by rw [hkey, CString.strcmp_eq_zero_iff.1 hmatch]⟩
        · refine .silent (.lookupAdvance list sought node) ?_ ?_
          · simp [program, hcompare, hmatch]
          refine .load rfl (by simp) hring.linked_after.1 ?_
          have hrest := ih (front ++ [node]) (by simpa using hring)
            (fun n hn => hkeyed n (by simp [hn])) htail
          refine hrest.mono (by simp) ?_
          intro _ _ ⟨hmem, node?, hfinal, hfound, hnone⟩
          refine ⟨hmem, node?, hfinal, fun n hn => ?_, fun hn n hmem => ?_⟩
          · exact ⟨List.mem_cons_of_mem _ (hfound n hn).1, (hfound n hn).2⟩
          · rcases List.mem_cons.1 hmem with rfl | hmem
            · rw [hkey]
              intro heq
              exact hmatch (CString.strcmp_eq_zero_iff.2 (Option.some.inj heq).symm)
            · exact hnone hn n hmem
      -- it is above this key, and so above all keys behind it
      · refine .silent (.found none) ?_ (.done rfl ⟨rfl, none, rfl, by simp, ?_⟩)
        · simp [program, hnode, hcompare, hguard]
        intro _ n hn hsought
        have hle : keyOf key n ≤ keyOf key node := by
          rcases List.mem_cons.1 hn with rfl | hn
          · exact le_rfl
          · exact hhead n hn
        rw [CString.strcmp_lt_one_iff] at hguard
        exact hguard (by simpa [keyOf, hsought] using hle)

/-- `SortedList_lookup` on a descending ring of keyed nodes. -/
theorem lookup_completes {list : α} (sought : CString) {nodes : List α}
    (hring : Ring memory (list :: nodes)) (hkeyed : Keyed key nodes)
    (hsorted : Descending key nodes) :
    Completes (program key) (cells (list :: nodes))
      (fun result final => result = memory ∧ ∃ node?, final = .found node? ∧
        (∀ node, node? = some node → node ∈ nodes ∧ key node = some sought) ∧
        (node? = none → ∀ node ∈ nodes, key node ≠ some sought))
      memory (.lookupStart list sought) := by
  refine .load rfl (by simp) hring.next_head ?_
  simpa using lookup_loop_completes sought [] nodes hring hkeyed hsorted

/-! ## Length -/

/-- The counting loop of `SortedList_length`, by induction on the nodes not yet counted. -/
theorem length_loop_completes {list : α} (front back : List α) (count : Int)
    (hring : Ring memory (list :: (front ++ back))) :
    Completes (program key) (cells (list :: (front ++ back)))
      (fun result final => result = memory ∧ final = .measured (count + back.length))
      memory (.lengthTest list (back.headD list) count) := by
  induction back generalizing front count with
  | nil => exact .silent (.measured count) (by simp [program]) (.done rfl ⟨rfl, by simp⟩)
  | cons node back ih =>
      have hnode : node ≠ list := fun heq => by
        have hnodup := hring.nodup
        simp [heq] at hnodup
      obtain ⟨hnext, hprev⟩ := hring.linked_after
      have hafter : back.headD list ∈ list :: (front ++ node :: back) := by
        simpa using headD_mem list (front ++ [node]) back
      refine .silent (.lengthReadNext list node count) (by simp [program, hnode]) ?_
      refine .load rfl (by simp) hnext (.load rfl hafter hprev ?_)
      rw [if_neg (not_not_intro rfl)]
      refine .load rfl (by simp) hnext ?_
      have hrest := ih (front ++ [node]) (count + 1) (by simpa using hring)
      refine hrest.mono (by simp) ?_
      rintro _ _ ⟨hmem, rfl⟩
      refine ⟨hmem, ?_⟩
      have hlength : ((node :: back).length : Int) = back.length + 1 := by simp
      rw [hlength]
      congr 1
      omega

/-- `SortedList_length` on a ring returns the number of its nodes. -/
theorem length_completes {list : α} {nodes : List α} (hring : Ring memory (list :: nodes)) :
    Completes (program key) (cells (list :: nodes))
      (fun result final => result = memory ∧ final = .measured nodes.length)
      memory (.lengthStart list) := by
  have hlink := hring.linked_at [] nodes
  have hhead : nodes.headD list ∈ list :: nodes := headD_mem list [] nodes
  refine .load rfl (by simp) hlink.1 (.load rfl hhead hlink.2 ?_)
  rw [if_neg (by simp)]
  simpa using length_loop_completes [] nodes 0 hring

/-! ## The order of insertion -/

omit [DecidableEq α] in
/-- `place` adds exactly the element. -/
theorem mem_place {element node : α} {nodes : List α} :
    node ∈ place key element nodes ↔ node = element ∨ node ∈ nodes := by
  simp [place]

omit [DecidableEq α] in
/-- `place` keeps the list descending: the walked nodes have keys at least the element's, equal
ones included, and the node it stops at has a smaller key. -/
theorem descending_place {element : α} {nodes : List α} (h : Descending key nodes) :
    Descending key (place key element nodes) := by
  induction nodes with
  | nil => simp [place, Descending]
  | cons node nodes ih =>
      obtain ⟨hhead, htail⟩ := List.pairwise_cons.1 h
      by_cases hbefore : Before key element node
      · have hplace : place key element (node :: nodes) = element :: node :: nodes := by
          simp [place, hbefore]
        rw [hplace]
        refine List.pairwise_cons.2 ⟨fun n hn => ?_, h⟩
        have hle : keyOf key node ≤ keyOf key element := le_of_lt hbefore
        rcases List.mem_cons.1 hn with rfl | hn
        · exact hle
        · exact (hhead n hn).trans hle
      · have hplace : place key element (node :: nodes) = node :: place key element nodes := by
          simp [place, hbefore]
        rw [hplace]
        refine List.pairwise_cons.2 ⟨fun n hn => ?_, ih htail⟩
        rcases mem_place.1 hn with rfl | hn
        · exact le_of_not_gt hbefore
        · exact hhead n hn

end Coursework.SortedList
