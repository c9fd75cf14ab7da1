import Coursework.SortedList.Functions

/-!
# Heaps reached by insertions and deletions

`History` is a run of complete `SortedList_insert` and `SortedList_delete` calls on any number
of lists that share one pool of nodes. `owner` computes from the calls alone which list a
node is in. `Shape` ties the heap to it: every list is a ring of exactly the nodes it owns, in
descending key order, and `History.shape` says that every reachable heap has this shape.
Vocabulary and scope: `Coursework.SortedList.Program`.
-/

namespace Coursework.SortedList

open Atomic Heap

variable {α : Type} [DecidableEq α]

/-- One completed call. -/
inductive Op (α : Type) where
  | insert (list element : α)
  | delete (element : α)
  deriving DecidableEq

/-- The list a node is in after one more call. -/
def Op.apply (owner : α → Option α) : Op α → α → Option α
  | .insert list element => Function.update owner element (some list)
  | .delete element => Function.update owner element none

/-- The list each node was inserted into and not deleted from since. -/
def owner (ops : List (Op α)) : α → Option α :=
  ops.foldl Op.apply fun _ => none

@[simp] theorem owner_nil : owner ([] : List (Op α)) = fun _ => none := rfl

@[simp] theorem owner_concat (ops : List (Op α)) (op : Op α) :
    owner (ops ++ [op]) = op.apply (owner ops) := by
  simp [owner]

/-- Every list head points at itself and has no key, as `main` leaves it. -/
def Initial (key : α → Option CString) (heads : Set α) (memory : Memory (Cell α) α) : Prop :=
  ∀ list ∈ heads, memory (.next list) = some list ∧ memory (.prev list) = some list ∧
    key list = none

/-- A run of complete calls: insertions of keyed nodes that are in no list, and deletions of
nodes that are in some list. -/
inductive History (key : α → Option CString) (heads : Set α) (start : Memory (Cell α) α) :
    List (Op α) → Memory (Cell α) α → Prop where
  | start : History key heads start [] start
  | insert {ops memory result list element} : History key heads start ops memory →
      list ∈ heads → owner ops element = none → (key element).isSome →
      Allocated memory element →
      Returns (program key) memory (.insertStart list element) result .inserted →
      History key heads start (ops ++ [.insert list element]) result
  | delete {ops memory result list element code} : History key heads start ops memory →
      owner ops element = some list →
      Returns (program key) memory (.deleteStart element) result (.deleted code) →
      History key heads start (ops ++ [.delete element]) result

/-- The heap after the calls `ops`: the lists are rings of the nodes they own. -/
structure Shape (key : α → Option CString) (heads : Set α) (ops : List (Op α))
    (memory : Memory (Cell α) α) (contents : α → List α) : Prop where
  headless : ∀ list ∈ heads, key list = none
  owned : ∀ element list, owner ops element = some list → list ∈ heads ∧ (key element).isSome
  ring : ∀ list ∈ heads, Ring memory (list :: contents list)
  member : ∀ list ∈ heads, ∀ element, element ∈ contents list ↔ owner ops element = some list
  descending : ∀ list ∈ heads, Descending key (contents list)

variable {key : α → Option CString} {heads : Set α} {start memory : Memory (Cell α) α}
  {ops : List (Op α)}

namespace Shape

variable {contents : α → List α}

/-- The nodes of a list have keys. -/
theorem keyed (h : Shape key heads ops memory contents) {list : α} (hlist : list ∈ heads) :
    Keyed key (contents list) :=
  fun node hnode => (h.owned node list ((h.member list hlist node).1 hnode)).2

/-- A node that is in no list and has a key is not on the ring of any list. -/
theorem fresh (h : Shape key heads ops memory contents) {list element : α} (hlist : list ∈ heads)
    (howner : owner ops element = none) (hkey : (key element).isSome) :
    element ∉ list :: contents list := by
  simp only [List.mem_cons, not_or]
  constructor
  · rintro rfl
    simp [h.headless element hlist] at hkey
  · intro hmem
    simp [(h.member list hlist element).1 hmem] at howner

/-- Rings of different lists have no node in common. -/
theorem disjoint (h : Shape key heads ops memory contents) {first second node : α}
    (hfirst : first ∈ heads) (hsecond : second ∈ heads) (hne : first ≠ second)
    (hnode : node ∈ first :: contents first) : node ∉ second :: contents second := by
  have hhead : ∀ list ∈ heads, ∀ other ∈ heads, list ∉ contents other := by
    intro list hlist other hother hmem
    have hkey := h.keyed hother list hmem
    simp [h.headless list hlist] at hkey
  rcases List.mem_cons.1 hnode with rfl | hnode
  · simpa [hne] using hhead node hfirst second hsecond
  · simp only [List.mem_cons, not_or]
    constructor
    · rintro rfl
      exact hhead node hsecond first hfirst hnode
    · intro hmem
      have hown := (h.member first hfirst node).1 hnode
      rw [(h.member second hsecond node).1 hmem] at hown
      exact hne (Option.some.inj hown).symm

/-- `SortedList_insert` of a new node halts and links it into the given list. -/
theorem insert_completes (h : Shape key heads ops memory contents) {list element : α}
    (hlist : list ∈ heads) (howner : owner ops element = none) (hkey : (key element).isSome)
    (halloc : Allocated memory element) :
    Completes (program key) (cells (element :: list :: contents list))
      (fun result final => final = .inserted ∧
        Ring result (list :: place key element (contents list)))
      memory (.insertStart list element) :=
  SortedList.insert_completes (h.ring list hlist) (h.keyed hlist) hkey halloc
    (h.fresh hlist howner hkey)

/-- `SortedList_delete` of a node in a list halts with 0 and unlinks it. -/
theorem delete_completes (h : Shape key heads ops memory contents) {list element : α}
    (howner : owner ops element = some list) :
    Completes (program key) (cells (list :: contents list))
      (fun result final => final = .deleted 0 ∧
        Ring result (list :: (contents list).erase element))
      memory (.deleteStart element) := by
  obtain ⟨hlist, hkey⟩ := h.owned element list howner
  exact delete_mem_completes (h.ring list hlist) ((h.member list hlist element).2 howner) hkey

/-- The shape after an insertion. -/
theorem insert (h : Shape key heads ops memory contents) {list element : α}
    {result : Memory (Cell α) α} (hlist : list ∈ heads) (howner : owner ops element = none)
    (hkey : (key element).isSome) (halloc : Allocated memory element)
    (hret : Returns (program key) memory (.insertStart list element) result .inserted) :
    Shape key heads (ops ++ [.insert list element]) result
      (Function.update contents list (place key element (contents list))) := by
  obtain ⟨⟨-, hring⟩, hframe⟩ :=
    (h.insert_completes hlist howner hkey halloc).of_returns hret
  refine ⟨h.headless, fun e l he => ?_, fun l hl => ?_, fun l hl e => ?_, fun l hl => ?_⟩
  · rcases eq_or_ne e element with rfl | hne
    · simp only [owner_concat, Op.apply, Function.update_self, Option.some.injEq] at he
      exact ⟨he ▸ hlist, hkey⟩
    · simp only [owner_concat, Op.apply, Function.update_of_ne hne] at he
      exact h.owned e l he
  · rcases eq_or_ne l list with rfl | hne
    · simpa using hring
    · rw [Function.update_of_ne hne]
      refine (h.ring l hl).congr fun field hfield => (hframe field ?_).symm
      simp only [mem_cells] at hfield ⊢
      have hfresh := ne_of_mem_of_not_mem hfield (h.fresh hl howner hkey)
      simpa [hfresh] using h.disjoint hl hlist hne hfield
  · rcases eq_or_ne e element with rfl | hne
    · rcases eq_or_ne l list with rfl | hlne
      · simp [Op.apply, mem_place]
      · have hnot : e ∉ contents l := by simp [h.member l hl e, howner]
        simp [Op.apply, Function.update_of_ne hlne, hnot, Ne.symm hlne]
    · rcases eq_or_ne l list with rfl | hlne
      · simp [Op.apply, mem_place, hne, h.member l hl e]
      · simp [Op.apply, Function.update_of_ne hne, Function.update_of_ne hlne, h.member l hl e]
  · rcases eq_or_ne l list with rfl | hne
    · simpa using descending_place (h.descending l hl)
    · simpa [Function.update_of_ne hne] using h.descending l hl

/-- The shape after a deletion. -/
theorem delete (h : Shape key heads ops memory contents) {list element : α}
    {result : Memory (Cell α) α} {code : Int} (howner : owner ops element = some list)
    (hret : Returns (program key) memory (.deleteStart element) result (.deleted code)) :
    Shape key heads (ops ++ [.delete element]) result
      (Function.update contents list ((contents list).erase element)) := by
  obtain ⟨hlist, -⟩ := h.owned element list howner
  obtain ⟨⟨-, hring⟩, hframe⟩ := (h.delete_completes howner).of_returns hret
  refine ⟨h.headless, fun e l he => ?_, fun l hl => ?_, fun l hl e => ?_, fun l hl => ?_⟩
  · rcases eq_or_ne e element with rfl | hne
    · simp [Op.apply] at he
    · simp only [owner_concat, Op.apply, Function.update_of_ne hne] at he
      exact h.owned e l he
  · rcases eq_or_ne l list with rfl | hne
    · simpa using hring
    · rw [Function.update_of_ne hne]
      exact (h.ring l hl).congr fun field hfield =>
        (hframe field (h.disjoint hl hlist hne hfield)).symm
  · have hnodup := (List.nodup_cons.1 (h.ring list hlist).nodup).2
    rcases eq_or_ne l list with rfl | hlne
    · rw [Function.update_self, hnodup.mem_erase_iff, h.member l hl e]
      rcases eq_or_ne e element with rfl | hne
      · simp [Op.apply]
      · simp [Op.apply, hne]
    · rw [Function.update_of_ne hlne, h.member l hl e]
      rcases eq_or_ne e element with rfl | hne
      · simp [Op.apply, howner, Ne.symm hlne]
      · simp [Op.apply, Function.update_of_ne hne]
  · rcases eq_or_ne l list with rfl | hne
    · rw [Function.update_self]
      exact (h.descending l hl).sublist List.erase_sublist
    · simpa [Function.update_of_ne hne] using h.descending l hl

end Shape

/-- Every heap reached from empty lists has the shape the calls describe. -/
theorem History.shape (hinit : Initial key heads start)
    (h : History key heads start ops memory) :
    ∃ contents, Shape key heads ops memory contents := by
  induction h with
  | start =>
      refine ⟨fun _ => [], fun l hl => (hinit l hl).2.2, by simp, fun l hl => ?_, by simp,
        fun _ _ => .nil⟩
      obtain ⟨hnext, hprev, -⟩ := hinit l hl
      exact ring_cons_iff.2 ⟨by simp, by simp [Linked, hnext, hprev]⟩
  | insert _ hlist howner hkey halloc hret ih =>
      obtain ⟨contents, hshape⟩ := ih
      exact ⟨_, hshape.insert hlist howner hkey halloc hret⟩
  | delete _ howner hret ih =>
      obtain ⟨contents, hshape⟩ := ih
      exact ⟨_, hshape.delete howner hret⟩

/-- An insertion of a new node always returns. -/
theorem History.insert_returns (hinit : Initial key heads start)
    (h : History key heads start ops memory) {list element : α} (hlist : list ∈ heads)
    (howner : owner ops element = none) (hkey : (key element).isSome)
    (halloc : Allocated memory element) :
    ∃ result, Returns (program key) memory (.insertStart list element) result .inserted := by
  obtain ⟨contents, hshape⟩ := h.shape hinit
  obtain ⟨result, _, hret, ⟨rfl, -⟩, -⟩ :=
    (hshape.insert_completes hlist howner hkey halloc).returns
  exact ⟨result, hret⟩

/-- The calls before any point of a history form a history. -/
theorem History.of_prefix (h : History key heads start ops memory) {before : List (Op α)}
    (hbefore : before <+: ops) : ∃ earlier, History key heads start before earlier := by
  induction h with
  | start => exact ⟨start, List.prefix_nil.1 hbefore ▸ .start⟩
  | insert hprev hlist howner hkey halloc hret ih =>
      rcases List.prefix_concat_iff.1 hbefore with rfl | hbefore
      · exact ⟨_, hprev.insert hlist howner hkey halloc hret⟩
      · exact ih hbefore
  | delete hprev howner hret ih =>
      rcases List.prefix_concat_iff.1 hbefore with rfl | hbefore
      · exact ⟨_, hprev.delete howner hret⟩
      · exact ih hbefore

/-! ## Two nodes and one list -/

/-- A pool of one list head and the nodes `"a"` and `"b"`. -/
def poolKey : Fin 3 → Option CString
  | 0 => none
  | 1 => some ⟨[97], by decide⟩
  | 2 => some ⟨[98], by decide⟩

/-- Every pointer of the pool initially points at its own node. -/
def poolStart : Memory (Cell (Fin 3)) (Fin 3) :=
  fun field => some field.node

/-- The head of the pool is initialised. -/
theorem pool_initial : Initial poolKey {0} poolStart := by
  rintro list rfl
  exact ⟨rfl, rfl, rfl⟩

/-- Both nodes of the pool can be inserted, one after the other. -/
theorem pool_history :
    ∃ memory, History poolKey {0} poolStart [.insert 0 1, .insert 0 2] memory := by
  obtain ⟨first, hfirst⟩ := History.start.insert_returns pool_initial
    (show (0 : Fin 3) ∈ {0} from rfl) (show owner [] 1 = none from rfl) rfl ⟨rfl, rfl⟩
  have hone : History poolKey {0} poolStart [.insert 0 1] first :=
    History.start.insert rfl rfl rfl ⟨rfl, rfl⟩ hfirst
  have halloc : Allocated first 2 := ⟨hfirst.isSome rfl, hfirst.isSome rfl⟩
  obtain ⟨second, hsecond⟩ := hone.insert_returns pool_initial
    (show (0 : Fin 3) ∈ {0} from rfl) (show owner [.insert 0 1] 2 = none from rfl) rfl halloc
  exact ⟨second, hone.insert rfl rfl rfl halloc hsecond⟩

end Coursework.SortedList
