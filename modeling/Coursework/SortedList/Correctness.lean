import Coursework.SortedList.Histories

/-!
# Shape, search and order of the sorted lists

Results about every heap reached by complete insertions and deletions.
`rings_of_history` states the heap shape, `lookup_of_history` the search, and
`ascending_iff_equal_keys` when the documented ascending order holds: `SortedList_insert` walks
past keys that are greater or equal, so lists are descending, and they are ascending too only
as long as all keys of a list are equal.
Vocabulary and scope: `Coursework.SortedList.Histories`.
-/

namespace Coursework.SortedList

open Atomic Heap

variable {α : Type} [DecidableEq α] {key : α → Option CString} {heads : Set α}
  {start memory : Memory (Cell α) α} {ops : List (Op α)}

/-- In every reachable heap, following `next` from a head visits exactly the nodes inserted into
that list and not deleted since, each once, and comes back; `prev` is the inverse of `next` on
each ring; rings of different heads are disjoint; insertions of new nodes return, and deletions
of nodes in a list return 0. -/
theorem rings_of_history (hinit : Initial key heads start)
    (h : History key heads start ops memory) :
    ∃ contents : α → List α,
      (∀ list ∈ heads, (list :: contents list).Nodup ∧
        (∀ element, element ∈ contents list ↔ owner ops element = some list) ∧
        (∀ steps ≤ (contents list).length,
          follow memory steps list = (list :: contents list)[steps]?) ∧
        follow memory ((contents list).length + 1) list = some list ∧
        ∀ a ∈ list :: contents list, ∀ b ∈ list :: contents list,
          memory (.next a) = some b ↔ memory (.prev b) = some a) ∧
      (∀ first ∈ heads, ∀ second ∈ heads, first ≠ second →
        (first :: contents first).Disjoint (second :: contents second)) ∧
      (∀ list ∈ heads, ∀ element, owner ops element = none → (key element).isSome →
        Allocated memory element →
        ∃ result, Returns (program key) memory (.insertStart list element) result .inserted) ∧
      ∀ list element, owner ops element = some list →
        (∃ result, Returns (program key) memory (.deleteStart element) result (.deleted 0)) ∧
        ∀ result final, Returns (program key) memory (.deleteStart element) result final →
          final = .deleted 0 := by
  obtain ⟨contents, hshape⟩ := h.shape hinit
  refine ⟨contents, fun list hlist => ?_, fun first hfirst second hsecond hne node hnode => ?_,
    fun list hlist element howner hkey halloc => ?_, fun list element howner => ⟨?_, ?_⟩⟩
  · have hring := hshape.ring list hlist
    exact ⟨hring.nodup, hshape.member list hlist, hring.follow_eq.1, hring.follow_eq.2,
      fun a ha b hb => hring.next_iff_prev ha hb⟩
  · exact hshape.disjoint hfirst hsecond hne hnode
  · exact h.insert_returns hinit hlist howner hkey halloc
  · obtain ⟨result, _, hret, ⟨rfl, -⟩, -⟩ := (hshape.delete_completes howner).returns
    exact ⟨result, hret⟩
  · intro result final hret
    exact ((hshape.delete_completes howner).of_returns hret).1.1

/-- The shape of the pool's heap after two insertions. -/
theorem pool_rings : ∃ (memory : Memory (Cell (Fin 3)) (Fin 3)) (nodes : List (Fin 3)),
    (∀ element, element ∈ nodes ↔ owner [.insert 0 1, .insert 0 2] element = some 0) ∧
      follow memory (nodes.length + 1) 0 = some 0 := by
  obtain ⟨memory, h⟩ := pool_history
  obtain ⟨contents, hlists, -⟩ := rings_of_history pool_initial h
  obtain ⟨-, hmember, -, hback, -⟩ := hlists 0 rfl
  exact ⟨memory, contents 0, hmember, hback⟩

/-- In every reachable heap, `SortedList_lookup` returns without changing the heap. It returns a
node of the list with the sought key if there is one, and `NULL` otherwise. -/
theorem lookup_of_history (hinit : Initial key heads start)
    (h : History key heads start ops memory) {list : α} (hlist : list ∈ heads)
    (sought : CString) :
    ∃ node?, Returns (program key) memory (.lookupStart list sought) memory (.found node?) ∧
      (∀ node, node? = some node → owner ops node = some list ∧ key node = some sought) ∧
      (node? = none → ∀ node, owner ops node = some list → key node ≠ some sought) := by
  obtain ⟨contents, hshape⟩ := h.shape hinit
  obtain ⟨_, _, hret, ⟨rfl, node?, rfl, hfound, hnone⟩, -⟩ :=
    (lookup_completes sought (hshape.ring list hlist) (hshape.keyed hlist)
      (hshape.descending list hlist)).returns
  refine ⟨node?, hret, fun node hnode => ?_, fun hnode node hown => ?_⟩
  · obtain ⟨hmem, hkey⟩ := hfound node hnode
    exact ⟨(hshape.member list hlist node).1 hmem, hkey⟩
  · exact hnone hnode node ((hshape.member list hlist node).2 hown)

/-- Looking up `"a"` in the pool after both insertions finds node 1. -/
theorem pool_lookup : ∃ memory, Returns (program poolKey) memory
    (.lookupStart 0 ⟨[97], by decide⟩) memory (.found (some 1)) := by
  obtain ⟨memory, h⟩ := pool_history
  obtain ⟨node?, hret, hfound, hnone⟩ :=
    lookup_of_history pool_initial h (show (0 : Fin 3) ∈ {0} from rfl) ⟨[97], by decide⟩
  cases node? with
  | none => exact (hnone rfl 1 (by decide) (by decide)).elim
  | some node =>
      obtain ⟨-, hkey⟩ := hfound node rfl
      have hone : ∀ node : Fin 3, poolKey node = some ⟨[97], by decide⟩ → node = 1 := by decide
      exact ⟨memory, hone node hkey ▸ hret⟩

/-! ## The documented order -/

/-- The order promised by `SortedList.h`: the head's `next` is a lowest-keyed element, its `prev`
a highest-keyed one, and neighbouring elements ascend. -/
structure Ascending (key : α → Option CString) (ops : List (Op α)) (memory : Memory (Cell α) α)
    (list : α) : Prop where
  lowest_first : ∀ first, memory (.next list) = some first → first ≠ list →
    ∀ node, owner ops node = some list → CString.strcmp (keyOf key first) (keyOf key node) ≤ 0
  highest_last : ∀ last, memory (.prev list) = some last → last ≠ list →
    ∀ node, owner ops node = some list → CString.strcmp (keyOf key node) (keyOf key last) ≤ 0
  neighbours : ∀ a b, owner ops a = some list → memory (.next a) = some b → b ≠ list →
    CString.strcmp (keyOf key a) (keyOf key b) ≤ 0

/-- All nodes of the list carry the same key. -/
def EqualKeys (key : α → Option CString) (ops : List (Op α)) (list : α) : Prop :=
  ∀ a b, owner ops a = some list → owner ops b = some list → keyOf key a = keyOf key b

/-- On a reachable list, which is descending, an ascending order leaves only the key of the first
node. -/
theorem Shape.key_eq_first {contents : α → List α} (h : Shape key heads ops memory contents)
    {list : α} (hlist : list ∈ heads) (hasc : Ascending key ops memory list) {node : α}
    (hnode : owner ops node = some list) :
    keyOf key node = keyOf key ((contents list).headD list) := by
  have hring := h.ring list hlist
  have hdesc := h.descending list hlist
  have hnext := hring.next_head
  have hmem := (h.member list hlist node).2 hnode
  cases hcontents : contents list with
  | nil => simp [hcontents] at hmem
  | cons first rest =>
      rw [hcontents] at hdesc hnext hmem hring
      have hne : first ≠ list := fun heq => by
        have hnodup := hring.nodup
        simp [heq] at hnodup
      have hle : keyOf key first ≤ keyOf key node :=
        hasc.lowest_first first hnext hne node hnode
      rcases List.mem_cons.1 hmem with rfl | hmem
      · rfl
      · exact le_antisymm ((List.pairwise_cons.1 hdesc).1 node hmem) hle

/-- A reachable list is descending, so it is ascending exactly when all its keys are equal. -/
theorem Shape.ascending_iff {contents : α → List α} (h : Shape key heads ops memory contents)
    {list : α} (hlist : list ∈ heads) :
    Ascending key ops memory list ↔ EqualKeys key ops list := by
  have hring := h.ring list hlist
  have hmember := h.member list hlist
  constructor
  · intro hasc a b ha hb
    rw [h.key_eq_first hlist hasc ha, h.key_eq_first hlist hasc hb]
  · intro heq
    have hle : ∀ a b, a ∈ contents list → b ∈ contents list →
        CString.strcmp (keyOf key a) (keyOf key b) ≤ 0 := by
      intro a b ha hb
      rw [heq a b ((hmember a).1 ha) ((hmember b).1 hb)]
      exact le_refl (keyOf key b)
    have hmem : ∀ node, node ∈ list :: contents list → node ≠ list → node ∈ contents list :=
      fun node hnode hne => (List.mem_cons.1 hnode).resolve_left hne
    refine ⟨fun first hnext hne node hnode => ?_, fun last hprev hne node hnode => ?_,
      fun a b ha hnext hne => ?_⟩
    · exact hle first node (hmem first (hring.next_mem (by simp) hnext) hne)
        ((hmember node).2 hnode)
    · exact hle node last ((hmember node).2 hnode) (hmem last (hring.prev_mem (by simp) hprev) hne)
    · have ha := (hmember a).2 ha
      exact hle a b ha (hmem b (hring.next_mem (List.mem_cons_of_mem _ ha) hnext) hne)

/-- Keys stay equal as long as every inserted key equals the keys already in its list. -/
theorem equal_keys_of_inserts {list : α}
    (hinserts : ∀ before element, before ++ [.insert list element] <+: ops →
      ∀ node, owner before node = some list → keyOf key node = keyOf key element) :
    EqualKeys key ops list := by
  induction ops using List.reverseRecOn with
  | nil => simp [EqualKeys]
  | append_singleton ops op ih =>
      have hrest := ih fun before element hbefore =>
        hinserts before element (hbefore.trans (List.prefix_append _ _))
      cases op with
      | insert target element =>
          have hnew : target = list → ∀ node, owner ops node = some list →
              keyOf key node = keyOf key element := by
            rintro rfl
            exact hinserts ops element List.prefix_rfl
          intro a b ha hb
          rw [owner_concat, Op.apply] at ha hb
          rcases eq_or_ne a element with rfl | hane <;> rcases eq_or_ne b a with rfl | hbne
          · rfl
          · rw [Function.update_self, Option.some.injEq] at ha
            rw [Function.update_of_ne hbne] at hb
            exact (hnew ha b hb).symm
          · rfl
          · rw [Function.update_of_ne hane] at ha
            rcases eq_or_ne b element with rfl | hbne'
            · rw [Function.update_self, Option.some.injEq] at hb
              exact hnew hb a ha
            · rw [Function.update_of_ne hbne'] at hb
              exact hrest a b ha hb
      | delete element =>
          have hkeep : ∀ node, owner (ops ++ [.delete element]) node = some list →
              owner ops node = some list := by
            intro node hnode
            rcases eq_or_ne node element with rfl | hne
            · simp [Op.apply] at hnode
            · simpa [Op.apply, Function.update_of_ne hne] using hnode
          exact fun a b ha hb => hrest a b (hkeep a ha) (hkeep b hb)

/-- A history keeps the documented ascending order in every heap it passes through exactly when
every inserted node has the same key as all nodes then in its list. -/
theorem ascending_iff_equal_keys (hinit : Initial key heads start)
    (h : History key heads start ops memory) :
    (∀ before earlier, before <+: ops → History key heads start before earlier →
        ∀ list ∈ heads, Ascending key before earlier list) ↔
      ∀ before list element, before ++ [.insert list element] <+: ops →
        ∀ node, owner before node = some list → keyOf key node = keyOf key element := by
  constructor
  · intro hasc before list element hbefore node hnode
    obtain ⟨after, hafter⟩ := h.of_prefix hbefore
    obtain ⟨contents, hshape⟩ := hafter.shape hinit
    have hown : owner (before ++ [.insert list element]) element = some list := by simp [Op.apply]
    have hlist := (hshape.owned element list hown).1
    have hequal := (hshape.ascending_iff hlist).1 (hasc _ after hbefore hafter list hlist)
    rcases eq_or_ne node element with rfl | hne
    · rfl
    · exact hequal node element (by simpa [Op.apply, Function.update_of_ne hne] using hnode) hown
  · intro hinserts before earlier hbefore hearlier list hlist
    obtain ⟨contents, hshape⟩ := hearlier.shape hinit
    exact (hshape.ascending_iff hlist).2 (equal_keys_of_inserts fun earlier element hearlier =>
      hinserts earlier list element (hearlier.trans hbefore))

/-- The two insertions of the pool have different keys, so they do not keep the order. -/
theorem pool_ascending_iff :
    ¬ ∀ before earlier, before <+: [Op.insert 0 1, Op.insert 0 2] →
        History poolKey {0} poolStart before earlier → Ascending poolKey before earlier 0 := by
  obtain ⟨memory, h⟩ := pool_history
  intro hasc
  have hkeys := (ascending_iff_equal_keys pool_initial h).1
    (fun before earlier hbefore hearlier list hlist => by
      cases hlist
      exact hasc before earlier hbefore hearlier)
  exact absurd (hkeys [.insert 0 1] 0 2 List.prefix_rfl 1 rfl) (by decide)

/-- After inserting `"a"` and then `"b"` the list runs from `"b"` to `"a"`. -/
theorem pool_not_ascending : ∃ memory : Memory (Cell (Fin 3)) (Fin 3),
    Initial poolKey {0} poolStart ∧
      History poolKey {0} poolStart [.insert 0 1, .insert 0 2] memory ∧
      ¬ Ascending poolKey [.insert 0 1, .insert 0 2] memory 0 := by
  obtain ⟨memory, h⟩ := pool_history
  obtain ⟨contents, hshape⟩ := h.shape pool_initial
  refine ⟨memory, pool_initial, h, fun hasc => ?_⟩
  have hequal := (hshape.ascending_iff rfl).1 hasc
  exact absurd (hequal 1 2 (by decide) (by decide)) (by decide)

end Coursework.SortedList
