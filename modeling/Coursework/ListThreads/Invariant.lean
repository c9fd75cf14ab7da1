import Coursework.ListThreads.Program
import Mathlib.Algebra.Order.BigOperators.Group.List

/-!
# The invariant of the list threads

Every list has its own part of the heap: its head and the elements whose keys hash to it.
`ListInv` says of one list that it is a ring of exactly the elements inserted and not yet deleted,
except while a thread is inside its critical section; then the rest of that section,
executed alone, completes and leaves the ring that thread's progress calls for. A step of one
thread touches at most the part of the list whose lock it holds.
Vocabulary and scope: `Coursework.ListThreads.Program`.
-/

namespace Coursework.ListThreads

open Atomic Heap Numbers SortedList

variable {α : Type} {setup : Setup α}

/-! ## Indices and hashes -/

/-- An alphanumeric key hashes to an existing list. -/
theorem key_hash_range {nLists : Nat} (hpos : 0 < nLists) {key : CString}
    (hkey : ∀ c ∈ key.bytes, IsAlphanumeric c) :
    ∃ j < nLists, getKeyHash nLists key = (j : Nat) := by
  by_cases hcoarse : CString.strcmp key coarse = 0
  · exact ⟨0, hpos, by simp [getKeyHash, hcoarse]⟩
  · have hsum : 0 ≤ (key.bytes.map charToInt).sum := by
      refine List.sum_nonneg fun n hn => ?_
      obtain ⟨c, hc, rfl⟩ := List.mem_map.1 hn
      have halpha := hkey c hc
      simp only [IsAlphanumeric] at halpha
      simp only [charToInt]
      split <;> omega
    have hquot : 0 ≤ (key.bytes.map charToInt).sum.tdiv nLists :=
      Int.tdiv_nonneg hsum (by omega)
    refine ⟨((key.bytes.map charToInt).sum.tdiv nLists % nLists).toNat, ?_, ?_⟩
    · have hlt := Int.emod_lt_of_pos ((key.bytes.map charToInt).sum.tdiv nLists)
        (b := nLists) (by omega)
      omega
    · rw [getKeyHash, if_neg hcoarse, Int.tmod_eq_emod_of_nonneg hquot, Int.toNat_of_nonneg]
      exact Int.emod_nonneg _ (by omega)

/-- The number of elements is a value of type `int`. -/
class Options.InRange (options : Options) : Prop where
  product_le : options.nThreads * options.nIterations ≤ 2147483647

/-- Then so are the bounds of the threads' loops. -/
theorem Options.InRange.wrap_eq (options : Options) [h : options.InRange] {n : Nat}
    (hn : n ≤ options.nThreads) :
    wrap (n * options.nIterations) = (n * options.nIterations : Nat) := by
  have hle := (Nat.mul_le_mul_right options.nIterations hn).trans h.product_le
  rw [← Int.natCast_mul]
  exact wrap_of_range (by omega) (by omega)

variable (setup) in
/-- The elements a thread inserts and deletes. -/
def Owns (offset : Nat) (e : Int) : Prop :=
  (offset * setup.nIterations : Nat) ≤ e ∧ e < ((offset + 1) * setup.nIterations : Nat)

/-- An element has one owner. -/
theorem Owns.unique {first second : Fin setup.nThreads} {e : Int} (hfirst : Owns setup first e)
    (hsecond : Owns setup second e) : first = second := by
  obtain ⟨n, rfl⟩ := Int.eq_ofNat_of_zero_le ((Int.natCast_nonneg _).trans hfirst.1)
  have hdiv : ∀ {offset : Fin setup.nThreads}, Owns setup offset n →
      n / setup.nIterations = offset :=
    fun h => Nat.div_eq_of_lt_le (Int.ofNat_le.1 h.1) (Int.ofNat_lt.1 h.2)
  exact Fin.ext ((hdiv hfirst).symm.trans (hdiv hsecond))

section InRange

variable [setup.InRange] {offset : Fin setup.nThreads} {phase : Phase} {e : Int}

/-- Owned elements are in the pool. -/
theorem Owns.inPool (h : Owns setup offset e) : setup.InPool e := by
  refine ⟨(Int.natCast_nonneg _).trans h.1, h.2.trans_le ?_⟩
  rw [Options.nElements, Options.InRange.wrap_eq _ le_rfl]
  exact Int.ofNat_le.2 (Nat.mul_le_mul_right _ offset.isLt)

theorem first_eq (hphase : phase ≠ .length) :
    setup.first offset phase = (offset * setup.nIterations : Nat) := by
  have heq := Options.InRange.wrap_eq setup.toOptions offset.isLt.le
  cases phase with
  | insertion | lookup => exact heq
  | length => exact (hphase rfl).elim

theorem bound_eq (hphase : phase ≠ .length) :
    setup.bound offset phase = ((offset + 1) * setup.nIterations : Nat) := by
  have heq := Options.InRange.wrap_eq setup.toOptions (Nat.succ_le_of_lt offset.isLt)
  cases phase with
  | insertion | lookup => exact heq
  | length => exact (hphase rfl).elim

theorem first_le_bound (offset : Fin setup.nThreads) (phase : Phase) :
    setup.first offset phase ≤ setup.bound offset phase := by
  by_cases hphase : phase = .length
  · subst hphase
    exact Int.natCast_nonneg _
  · rw [first_eq hphase, bound_eq hphase]
    exact Int.ofNat_le.2 (Nat.mul_le_mul_right _ (Nat.le_succ _))

/-- A thread's loops go over the elements it owns. -/
theorem owns_iff (hphase : phase ≠ .length) :
    Owns setup offset e ↔ setup.first offset phase ≤ e ∧ e < setup.bound offset phase := by
  rw [first_eq hphase, bound_eq hphase]
  rfl

/-- Before its first round a thread has inserted nothing. -/
theorem Owns.not_lt_first (h : Owns setup offset e) : ¬ e < setup.first offset .insertion :=
  Int.not_lt.2 ((owns_iff (by simp)).1 h).1

end InRange

variable (setup) in
/-- The list an element's key hashes to. -/
def hashOf (e : Int) : Int :=
  getKeyHash setup.nLists (setup.elemKey e)

/-- Every element of the pool hashes to an existing list. -/
theorem hash_of_range {e : Int} (he : setup.InPool e) :
    ∃ j < setup.nLists, hashOf setup e = (j : Nat) :=
  key_hash_range setup.lists_pos (setup.alphanumeric e he)

variable (setup) in
/-- The head of list `j` and the elements whose keys hash to it. -/
def Belongs (j : Nat) (node : α) : Prop :=
  node = setup.globalList j ∨
    ∃ e, setup.InPool e ∧ hashOf setup e = j ∧ node = setup.elementPool e

variable (setup) in
/-- The part of the heap that belongs to list `j`. -/
def region (j : Nat) : Set (Cell α) :=
  {field | Belongs setup j field.node}

/-- A list head is not an element. -/
theorem list_ne_element {j : Nat} {e : Int} (hj : j < setup.nLists) (he : setup.InPool e) :
    setup.globalList j ≠ setup.elementPool e := by
  intro heq
  have hkey := setup.key_globalList j hj
  rw [heq, setup.key_elementPool e he] at hkey
  cases hkey

/-- The parts of two lists are disjoint. -/
theorem region_disjoint {i j : Nat} (hi : i < setup.nLists) (hj : j < setup.nLists) (hne : i ≠ j)
    {field : Cell α} (hfield : field ∈ region setup i) : field ∉ region setup j := by
  rintro (hlist' | ⟨e', he', hhash', helem'⟩) <;> rcases hfield with hlist | ⟨e, he, hhash, helem⟩
  · exact hne (setup.globalList_inj i hi j hj (hlist.symm.trans hlist'))
  · exact list_ne_element hj he (hlist'.symm.trans helem)
  · exact list_ne_element hi he' (hlist.symm.trans helem')
  · have heq := setup.elementPool_inj e he e' he' (helem.symm.trans helem')
    subst heq
    omega

/-! ## What a local state says -/

/-- The lock a thread holds. -/
def holds : Local α → Option Int
  | .call _ _ sublist _ | .deletion _ sublist _ | .release _ _ sublist => some sublist
  | _ => none

/-- The lock is taken. -/
def locked (shared : Shared α) (sublist : Int) : Prop :=
  ∃ held, shared.locks sublist = some held ∧ held ≠ 0

/-- The owned elements in a list before the loop body for index `i`. -/
def Phase.inList (i e : Int) : Phase → Prop
  | .insertion => e < i
  | .length => True
  | .lookup => i ≤ e

/-- The owned elements of a thread that are in a list. An element enters and leaves when its list
function has returned. -/
def inList (e : Int) : Local α → Prop
  | .test phase i | .acquire phase i _ | .spin phase i _ | .call phase i _ _ => phase.inList i e
  | .deletion i _ _ => Phase.inList i e .lookup
  | .release phase i _ => phase.inList (i + 1) e
  | .returned | .corrupt => False

variable (setup) in
/-- The indices of a local state are those of its loop, and it is not corrupt. -/
def Fits (offset : Nat) : Local α → Prop
  | .test phase i => setup.first offset phase ≤ i ∧ i ≤ setup.bound offset phase
  | .acquire phase i sublist | .spin phase i sublist | .call phase i sublist _
  | .release phase i sublist =>
      (setup.first offset phase ≤ i ∧ i < setup.bound offset phase) ∧
        setup.sublistIdx i phase = some sublist
  | .deletion i sublist _ =>
      (setup.first offset .lookup ≤ i ∧ i < setup.bound offset .lookup) ∧
        setup.sublistIdx i .lookup = some sublist
  | .returned => True
  | .corrupt => False

/-- The list of an owned element is the one that its key hashes to. -/
theorem sublistIdx_of_owns [setup.InRange] {offset : Fin setup.nThreads} {phase : Phase} {i : Int}
    (hphase : phase ≠ .length) (howns : Owns setup offset i) :
    setup.sublistIdx i phase = some (hashOf setup i) := by
  cases phase with
  | insertion | lookup => exact if_pos howns.inPool
  | length => exact (hphase rfl).elim

/-- In a loop body over elements the thread owns the element and works on its list. -/
theorem owns_of_body [setup.InRange] {offset : Fin setup.nThreads} {phase : Phase} {i sublist : Int}
    (hphase : phase ≠ .length)
    (hbody : (setup.first offset phase ≤ i ∧ i < setup.bound offset phase) ∧
      setup.sublistIdx i phase = some sublist) :
    Owns setup offset i ∧ hashOf setup i = sublist := by
  have howns := (owns_iff hphase).2 hbody.1
  rw [sublistIdx_of_owns hphase howns] at hbody
  exact ⟨howns, Option.some.inj hbody.2⟩

/-- A loop body works on an existing list. -/
theorem sublist_range [setup.InRange] {offset : Fin setup.nThreads} {phase : Phase} {i : Int}
    (hi : setup.first offset phase ≤ i ∧ i < setup.bound offset phase) :
    ∃ j < setup.nLists, setup.sublistIdx i phase = some ((j : Nat) : Int) := by
  by_cases hphase : phase = .length
  · subst hphase
    obtain ⟨n, rfl⟩ := Int.eq_ofNat_of_zero_le hi.1
    exact ⟨n, Int.ofNat_lt.1 hi.2, rfl⟩
  · have howns := (owns_iff hphase).2 hi
    obtain ⟨j, hj, hhash⟩ := hash_of_range howns.inPool
    exact ⟨j, hj, by rw [sublistIdx_of_owns hphase howns, hhash]⟩

variable (setup) in
/-- Element `e` is in a list. -/
def Present (locals : Fin setup.nThreads → Local α) (e : Int) : Prop :=
  ∃ offset : Fin setup.nThreads, Owns setup offset e ∧ inList e (locals offset)

/-- The elements of one thread's part are in a list exactly when the thread says so. -/
theorem present_iff {locals : Fin setup.nThreads → Local α} {offset : Fin setup.nThreads} {e : Int}
    (howns : Owns setup offset e) : Present setup locals e ↔ inList e (locals offset) :=
  ⟨fun ⟨_, hother, hin⟩ => hother.unique howns ▸ hin, fun hin => ⟨offset, howns, hin⟩⟩

/-- A thread's step does not move the elements of other threads. -/
theorem present_update_iff {locals : Fin setup.nThreads → Local α}
    {offset : Fin setup.nThreads} {after : Local α} {e : Int}
    (howns : ¬ Owns setup offset e) :
    Present setup (Function.update locals offset after) e ↔ Present setup locals e := by
  refine exists_congr fun other => and_congr_right fun hother => ?_
  have hne : other ≠ offset := fun heq => howns (heq ▸ hother)
  rw [Function.update_of_ne hne]

variable [DecidableEq α]

/-- A critical section in progress: where its list function is, what it has to return, and the
list it has to leave. -/
structure Section (α : Type) where
  control : Control α
  result : Control α → Prop
  contents : List α

variable (setup) in
/-- The critical section of a local state on a list with the given contents; `none` after its last
list function. -/
def critical (contents : List α) : Local α → Option (Section α)
  | .call .insertion i _ control =>
      some ⟨control, (· = .inserted), place setup.key (setup.elementPool i) contents⟩
  | .call .length _ _ control => some ⟨control, (∃ n : Nat, · = .measured n), contents⟩
  | .call .lookup _ _ control => some ⟨control, (∃ node, · = .found (some node)), contents⟩
  | .deletion i _ control => some ⟨control, (· = .deleted 0), contents.erase (setup.elementPool i)⟩
  | _ => none

variable (setup) in
/-- The holder of list `j`'s lock is on its way to the ring its section has to leave. -/
def Duty (nodes : Memory (Cell α) α) (j : Nat) (contents : List α) (state : Local α) : Prop :=
  match critical setup contents state with
  | some sect =>
      Completes (program setup.key) (region setup j)
        (fun result final => sect.result final ∧
          Ring result (setup.globalList j :: sect.contents)) nodes sect.control
  | none => Ring nodes (setup.globalList j :: contents)

variable (setup) in
/-- The state of list `j`. -/
structure ListInv (locals : Fin setup.nThreads → Local α) (nodes : Memory (Cell α) α) (j : Nat)
    (contents : List α) : Prop where
  member : ∀ node, node ∈ contents ↔
    ∃ e, Present setup locals e ∧ hashOf setup e = j ∧ node = setup.elementPool e
  nodup : contents.Nodup
  descending : Descending setup.key contents
  free : (∀ offset, holds (locals offset) ≠ some (j : Int)) →
    Ring nodes (setup.globalList j :: contents)
  held : ∀ offset, holds (locals offset) = some (j : Int) →
    Duty setup nodes j contents (locals offset)

variable (setup) in
/-- The invariant of every reachable state. -/
structure Invariant (config : Config (Fin setup.nThreads) (Shared α) (Local α)) : Prop where
  fits : ∀ offset : Fin setup.nThreads, Fits setup offset (config.locals offset)
  locks : ∀ sublist : Int, (config.shared.locks sublist).isSome ↔
    0 ≤ sublist ∧ sublist < setup.nLists
  allocated : ∀ e, setup.InPool e → Allocated config.shared.nodes (setup.elementPool e)
  exclusive : Exclusive holds locked config
  lists : ∀ j < setup.nLists, ∃ contents,
    ListInv setup config.locals config.shared.nodes j contents

/-! ## Frames -/

namespace ListInv

variable [setup.InRange] {locals : Fin setup.nThreads → Local α}
  {nodes nodes' : Memory (Cell α) α} {j : Nat} {contents contents' : List α}
  {offset : Fin setup.nThreads} {after : Local α}

/-- The nodes of a list belong to it. -/
theorem belongs (h : ListInv setup locals nodes j contents) {node : α}
    (hnode : node ∈ setup.globalList j :: contents) : Belongs setup j node := by
  rcases List.mem_cons.1 hnode with rfl | hnode
  · exact .inl rfl
  · obtain ⟨e, ⟨_, howns, _⟩, hhash, rfl⟩ := (h.member node).1 hnode
    exact .inr ⟨e, howns.inPool, hhash, rfl⟩

/-- The nodes of a list have keys. -/
theorem keyed (h : ListInv setup locals nodes j contents) : Keyed setup.key contents := by
  intro node hnode
  obtain ⟨e, ⟨_, howns, _⟩, _, rfl⟩ := (h.member node).1 hnode
  rw [setup.key_elementPool e howns.inPool]
  rfl

/-- Memories that agree on list `j`'s part give its lock holder the same duty. -/
theorem duty_congr (h : ListInv setup locals nodes j contents) {state : Local α}
    (hfits : Fits setup offset state) (hholds : holds state = some (j : Int))
    (hnodes : Set.EqOn nodes nodes' (region setup j)) (hduty : Duty setup nodes j contents state) :
    Duty setup nodes' j contents state := by
  have hring : ∀ {left right : Memory (Cell α) α} {list : List α},
      (∀ node ∈ list, Belongs setup j node) → Set.EqOn left right (region setup j) →
      Ring left list → Ring right list :=
    fun hlist hagree hring => hring.congr fun field hfield => hagree (hlist field.node hfield)
  have hsect : ∀ sect, critical setup contents state = some sect →
      ∀ node ∈ setup.globalList j :: sect.contents, Belongs setup j node := by
    intro sect hsect node hnode
    rcases List.mem_cons.1 hnode with rfl | hnode
    · exact .inl rfl
    have hcontents : ∀ node ∈ contents, Belongs setup j node :=
      fun node hnode => h.belongs (List.mem_cons_of_mem _ hnode)
    cases state with
    | call phase i sublist control =>
        cases phase with
        | insertion =>
            cases hsect
            obtain ⟨howns, hhash⟩ := owns_of_body (by simp) hfits
            rcases mem_place.1 hnode with rfl | hnode
            · exact .inr ⟨i, howns.inPool, hhash.trans (Option.some.inj hholds), rfl⟩
            · exact hcontents node hnode
        | length | lookup =>
            cases hsect
            exact hcontents node hnode
    | deletion i sublist control =>
        cases hsect
        exact hcontents node (List.mem_of_mem_erase hnode)
    | test | acquire | spin | release | returned | corrupt => cases hsect
  revert hduty
  simp only [Duty]
  cases hcritical : critical setup contents state with
  | none => exact hring (fun node hnode => h.belongs hnode) hnodes
  | some sect =>
      intro hduty
      refine hduty.congr hnodes fun hagree hpost => ⟨hpost.1, ?_⟩
      exact hring (hsect sect hcritical) hagree hpost.2

/-- A step that neither holds the lock of list `j` nor touches its part keeps its state. -/
theorem frame (h : ListInv setup locals nodes j contents)
    (hfits : ∀ offset : Fin setup.nThreads, Fits setup offset (locals offset))
    (hbefore : holds (locals offset) ≠ some (j : Int)) (hafter : holds after ≠ some (j : Int))
    (hin : ∀ e, Owns setup offset e → hashOf setup e = j →
      (inList e after ↔ inList e (locals offset)))
    (hnodes : Set.EqOn nodes nodes' (region setup j)) :
    ListInv setup (Function.update locals offset after) nodes' j contents := by
  have hsame : ∀ e, hashOf setup e = j →
      (Present setup (Function.update locals offset after) e ↔ Present setup locals e) := by
    intro e hhash
    refine exists_congr fun other => and_congr_right fun howns => ?_
    rcases eq_or_ne other offset with rfl | hne
    · simpa using hin e howns hhash
    · simp [Function.update_of_ne hne]
  refine ⟨fun node => ?_, h.nodup, h.descending, fun hfree => ?_, fun other hother => ?_⟩
  · rw [h.member]
    exact exists_congr fun e => ⟨fun ⟨hp, hh, hn⟩ => ⟨(hsame e hh).2 hp, hh, hn⟩,
      fun ⟨hp, hh, hn⟩ => ⟨(hsame e hh).1 hp, hh, hn⟩⟩
  · refine (h.free fun other => ?_).congr fun field hfield => hnodes (h.belongs hfield)
    rcases eq_or_ne other offset with rfl | hne
    · exact hbefore
    · simpa [Function.update_of_ne hne] using hfree other
  · have hne : other ≠ offset := by
      rintro rfl
      simp [hafter] at hother
    rw [Function.update_of_ne hne] at hother ⊢
    exact h.duty_congr (hfits other) hother hnodes (h.held other hother)

omit [setup.InRange] in
/-- A step of the only thread that may hold the lock of list `j`, which fulfils its duty. -/
theorem own (hother : ∀ other ≠ offset, holds (locals other) ≠ some (j : Int))
    (hmember : ∀ node, node ∈ contents' ↔ ∃ e,
      Present setup (Function.update locals offset after) e ∧ hashOf setup e = j ∧
        node = setup.elementPool e)
    (hnodup : contents'.Nodup) (hdescending : Descending setup.key contents')
    (hfree : holds after ≠ some (j : Int) → Ring nodes' (setup.globalList j :: contents'))
    (hheld : holds after = some (j : Int) → Duty setup nodes' j contents' after) :
    ListInv setup (Function.update locals offset after) nodes' j contents' := by
  refine ⟨hmember, hnodup, hdescending, fun hnone => ?_, fun other hholds => ?_⟩
  · exact hfree (by simpa using hnone offset)
  · rcases eq_or_ne other offset with rfl | hne
    · rw [Function.update_self] at hholds ⊢
      exact hheld hholds
    · rw [Function.update_of_ne hne] at hholds
      exact (hother other hne hholds).elim

end ListInv

end Coursework.ListThreads
