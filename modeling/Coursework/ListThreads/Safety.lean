import Coursework.ListThreads.Invariant

/-!
# Safety of the list threads

Every step of every thread keeps the invariant (`Invariant.step`), one case for each kind of
local state. In particular no thread reaches `sig_corrupt` as long as the number of elements is an
`int` (`list_threads_safe`), and when all threads have returned every list is empty, so the check at
the end of `main` passes. With a number that is not, a thread runs behind the pool
(`large_corrupt`).
Vocabulary and scope: `Coursework.ListThreads.Invariant`.
-/

namespace Coursework.ListThreads

open Atomic Heap SortedList

variable {α : Type} [DecidableEq α] {setup : Setup α}
  {config : Config (Fin setup.nThreads) (Shared α) (Local α)} {offset : Fin setup.nThreads}

/-- At the end of a list function its result and the ring it leaves are as its section says. -/
theorem ListInv.halted {j : Nat} {contents : List α} {sect : Section α}
    (hlist : ListInv setup config.locals config.shared.nodes j contents)
    (hholds : holds (config.locals offset) = some (j : Int))
    (hsect : critical setup contents (config.locals offset) = some sect)
    (hhalt : program setup.key sect.control = .halt) :
    sect.result sect.control ∧
      Ring config.shared.nodes (setup.globalList j :: sect.contents) := by
  have hduty := hlist.held offset hholds
  rw [Duty, hsect] at hduty
  exact hduty.halted hhalt

/-- A list function under the lock of its list is not stuck: it has its result or a next memory
access. -/
theorem ListInv.progress {j : Nat} {contents : List α} {sect : Section α}
    (hlist : ListInv setup config.locals config.shared.nodes j contents)
    (hholds : holds (config.locals offset) = some (j : Int))
    (hsect : critical setup contents (config.locals offset) = some sect) :
    sect.result sect.control ∨ ∃ nodes control,
      Atomic.next (program setup.key) (config.shared.nodes, sect.control) =
        some (nodes, control) := by
  have hduty := hlist.held offset hholds
  rw [Duty, hsect] at hduty
  rcases hduty.next with ⟨-, hpost⟩ | ⟨nodes, control, hnext, -⟩
  · exact .inl hpost.1
  · exact .inr ⟨nodes, control, hnext⟩

namespace Invariant

variable [setup.InRange]

/-- A step that respects the locks and touches the part of one list only keeps the invariant as
soon as it keeps the state of that list. -/
theorem move (hinv : Invariant setup config) {j : Nat} (hj : j < setup.nLists)
    {shared : Shared α} {after : Local α} (hfits : Fits setup offset after)
    (hlocks : ∀ sublist, (shared.locks sublist).isSome ↔ (config.shared.locks sublist).isSome)
    (halloc : ∀ field, (config.shared.nodes field).isSome → (shared.nodes field).isSome)
    (hlock : LockStep holds locked config.shared (config.locals offset) shared after)
    (hframe : ∀ field ∉ region setup j, shared.nodes field = config.shared.nodes field)
    (hbefore : ∀ i, holds (config.locals offset) = some i → i = j)
    (hafter : ∀ i, holds after = some i → i = j)
    (hin : ∀ e, Owns setup offset e → hashOf setup e ≠ j →
      (inList e after ↔ inList e (config.locals offset)))
    (hown : ∀ contents, ListInv setup config.locals config.shared.nodes j contents →
      ∃ contents', ListInv setup (Function.update config.locals offset after) shared.nodes j
        contents') :
    Invariant setup ⟨shared, Function.update config.locals offset after⟩ := by
  refine ⟨fun other => ?_, fun sublist => (hlocks sublist).trans (hinv.locks sublist),
    fun e he => ?_, hinv.exclusive.step hlock, fun i hi => ?_⟩
  · rcases eq_or_ne other offset with rfl | hne
    · simpa using hfits
    · simpa [Function.update_of_ne hne] using hinv.fits other
  · exact ⟨halloc _ (hinv.allocated e he).1, halloc _ (hinv.allocated e he).2⟩
  · obtain ⟨contents, hlist⟩ := hinv.lists i hi
    rcases eq_or_ne i j with rfl | hne
    · exact hown contents hlist
    · refine ⟨contents, hlist.frame hinv.fits ?_ ?_ (fun e howns hhash => ?_)
        fun field hfield => ?_⟩
      · intro hholds
        have := hbefore _ hholds
        omega
      · intro hholds
        have := hafter _ hholds
        omega
      · exact hin e howns (by omega)
      · exact (hframe field (region_disjoint hi hj hne hfield)).symm

/-- A step without a lock that leaves all lists alone keeps the invariant. -/
theorem pass (hinv : Invariant setup config) {shared : Shared α} {after : Local α}
    (hfits : Fits setup offset after) (hnodes : shared.nodes = config.shared.nodes)
    (hlocks : ∀ sublist, (shared.locks sublist).isSome ↔ (config.shared.locks sublist).isSome)
    (hlocked : ∀ sublist, locked shared sublist ↔ locked config.shared sublist)
    (hbefore : holds (config.locals offset) = none) (hafter : holds after = none)
    (hin : ∀ e, Owns setup offset e → (inList e after ↔ inList e (config.locals offset))) :
    Invariant setup ⟨shared, Function.update config.locals offset after⟩ := by
  refine hinv.move (j := 0) setup.lists_pos hfits hlocks (by simp [hnodes])
    (.keep (by rw [hbefore, hafter]) hlocked) (by simp [hnodes]) (by simp [hbefore])
    (by simp [hafter]) (fun e howns _ => hin e howns) fun contents hlist => ⟨contents, ?_⟩
  exact hlist.frame hinv.fits (by simp [hbefore]) (by simp [hafter])
    (fun e howns _ => hin e howns) (hnodes ▸ Set.eqOn_refl _ _)

omit [setup.InRange] in
/-- No other thread holds the lock of the list a thread holds. -/
theorem others (hinv : Invariant setup config) {j : Nat}
    (hholds : holds (config.locals offset) = some (j : Int)) :
    ∀ other ≠ offset, holds (config.locals other) ≠ some (j : Int) :=
  fun other hne hother => hne (hinv.exclusive.unique other offset j hother hholds)

omit [setup.InRange] in
/-- In a held list the elements change only with the holder's own progress. -/
theorem member_iff {j : Nat} {contents : List α} {after : Local α}
    (hlist : ListInv setup config.locals config.shared.nodes j contents)
    (hin : ∀ e, Owns setup offset e → (inList e after ↔ inList e (config.locals offset)))
    (node : α) :
    node ∈ contents ↔ ∃ e, Present setup (Function.update config.locals offset after) e ∧
      hashOf setup e = j ∧ node = setup.elementPool e := by
  rw [hlist.member]
  refine exists_congr fun e => and_congr_left fun _ => exists_congr fun other =>
    and_congr_right fun howns => ?_
  rcases eq_or_ne other offset with rfl | hne
  · simpa using (hin e howns).symm
  · simp [Function.update_of_ne hne]

/-! ## The steps -/

omit [DecidableEq α] in
/-- The loop that follows starts at or ahead of its bound. -/
theorem fits_following (offset : Fin setup.nThreads) (phase : Phase) :
    Fits setup offset (setup.following offset phase) := by
  cases phase with
  | insertion => exact ⟨le_rfl, first_le_bound offset .length⟩
  | length => exact ⟨le_rfl, first_le_bound offset .lookup⟩
  | lookup => trivial

omit [DecidableEq α] in
/-- Between two loops no element enters or leaves a list. -/
theorem inList_following_iff (phase : Phase) {e : Int} (howns : Owns setup offset e) :
    inList e (setup.following offset phase) ↔
      inList e (.test phase (setup.bound offset phase) : Local α) := by
  have hrange : ∀ phase, phase ≠ .length →
      setup.first offset phase ≤ e ∧ e < setup.bound offset phase :=
    fun phase hphase => (owns_iff hphase).1 howns
  cases phase with
  | insertion => exact iff_of_true trivial (hrange .insertion (by simp)).2
  | length => exact iff_of_true (hrange .lookup (by simp)).1 trivial
  | lookup => exact iff_of_false id (Int.not_le.2 (hrange .lookup (by simp)).2)

/-- The guard of a loop. -/
theorem step_test (hinv : Invariant setup config) {phase : Phase} {i : Int}
    (hlocal : config.locals offset = .test phase i) :
    Invariant setup ⟨config.shared, Function.update config.locals offset
      (if i < setup.bound offset phase then setup.body i phase
        else setup.following offset phase)⟩ := by
  have hfits := hinv.fits offset
  rw [hlocal] at hfits
  obtain ⟨hfirst, hbound⟩ := hfits
  split
  · next hlt =>
      obtain ⟨j, -, hsublist⟩ := sublist_range ⟨hfirst, hlt⟩
      rw [Setup.body, hsublist]
      exact hinv.pass ⟨⟨hfirst, hlt⟩, hsublist⟩ rfl (fun _ => .rfl) (fun _ => .rfl)
        (by rw [hlocal]; rfl) rfl (fun e _ => by rw [hlocal]; rfl)
  · next hge =>
      have hi : i = setup.bound offset phase := by omega
      refine hinv.pass (fits_following offset phase) rfl (fun _ => .rfl) (fun _ => .rfl)
        (by rw [hlocal]; rfl) ?_ fun e howns => ?_
      · cases phase <;> rfl
      · rw [hlocal, hi]
        exact inList_following_iff phase howns

/-- The list of a thread between the guard of a loop and the release of the lock. -/
theorem sublist_eq (hinv : Invariant setup config) (phase : Phase) {i sublist : Int}
    (hfits : (setup.first offset phase ≤ i ∧ i < setup.bound offset phase) ∧
      setup.sublistIdx i phase = some sublist) :
    ∃ j < setup.nLists, sublist = (j : Nat) ∧ ∃ held, config.shared.locks sublist = some held := by
  obtain ⟨j, hj, hsublist⟩ := sublist_range hfits.1
  obtain rfl := Option.some.inj (hsublist.symm.trans hfits.2)
  exact ⟨j, hj, rfl, Option.isSome_iff_exists.1 ((hinv.locks j).2 (by omega))⟩

/-- Overwriting an existing lock keeps the lock array. -/
theorem update_isSome {locks : Memory Int Int} {sublist held : Int}
    (hheld : locks sublist = some held) (value other : Int) :
    (Function.update locks sublist (some value) other).isSome ↔ (locks other).isSome := by
  rcases eq_or_ne other sublist with rfl | hne
  · simp [hheld]
  · simp [Function.update_of_ne hne]

omit [DecidableEq α] in
/-- Which locks are taken after overwriting one. -/
theorem locked_update {shared : Shared α} {sublist value : Int} (other : Int) :
    locked { shared with locks := Function.update shared.locks sublist (some value) } other ↔
      if other = sublist then value ≠ 0 else locked shared other := by
  rcases eq_or_ne other sublist with rfl | hne
  · simp [locked]
  · simp [locked, hne]

section Enter

variable {phase : Phase} {i : Int} {j : Nat} {contents : List α}

/-- A thread that takes the lock to insert its element finds that it is in no list yet. -/
theorem not_mem_of_acquire (hj : j < setup.nLists)
    (hlocal : config.locals offset = .acquire .insertion i j)
    (hlist : ListInv setup config.locals config.shared.nodes j contents)
    (howns : Owns setup offset i) :
    setup.elementPool i ∉ setup.globalList j :: contents := by
  simp only [List.mem_cons, not_or]
  refine ⟨(list_ne_element hj howns.inPool).symm, fun hmem => ?_⟩
  obtain ⟨e, ⟨other, hother, hin⟩, -, heq⟩ := (hlist.member _).1 hmem
  obtain rfl := setup.elementPool_inj i howns.inPool e hother.inPool heq
  -- only its owner inserts the element, and this thread has not come to it
  rw [hother.unique howns, hlocal] at hin
  exact Int.lt_irrefl i hin

/-- The list function entered with a fresh lock completes. -/
theorem duty_enter (hinv : Invariant setup config) (hj : j < setup.nLists)
    (hlocal : config.locals offset = .acquire phase i j)
    (hlist : ListInv setup config.locals config.shared.nodes j contents)
    (hring : Ring config.shared.nodes (setup.globalList j :: contents)) :
    Duty setup config.shared.nodes j contents (setup.enter i j phase) := by
  have hfits := hinv.fits offset
  rw [hlocal] at hfits
  have hrange : (0 : Int) ≤ j ∧ (j : Int) < setup.nLists := by omega
  have hcells : cells (setup.globalList j :: contents) ⊆ region setup j :=
    fun field hfield => hlist.belongs hfield
  rw [Setup.enter, if_pos hrange, Int.toNat_natCast]
  cases phase with
  | insertion =>
      obtain ⟨howns, hhash⟩ := owns_of_body (by simp) hfits
      have hkey := setup.key_elementPool i howns.inPool
      refine (insert_completes hring hlist.keyed (by rw [hkey]; rfl)
        (hinv.allocated i howns.inPool)
        (not_mem_of_acquire hj hlocal hlist howns)).mono ?_ fun _ _ hpost => hpost
      intro field hfield
      rcases List.mem_cons.1 hfield with hnode | hnode
      · exact .inr ⟨i, howns.inPool, hhash, hnode⟩
      · exact hcells hnode
  | length =>
      refine (length_completes hring).mono hcells ?_
      rintro _ _ ⟨rfl, hfinal⟩
      exact ⟨⟨_, hfinal⟩, hring⟩
  | lookup =>
      obtain ⟨howns, hhash⟩ := owns_of_body (by simp) hfits
      refine (lookup_completes _ hring hlist.keyed hlist.descending).mono hcells ?_
      rintro _ _ ⟨rfl, node?, hfinal, -, hnone⟩
      cases node? with
      | none =>
          -- the element was inserted, and is not deleted before it is looked up
          have hmem : setup.elementPool i ∈ contents := (hlist.member _).2
            ⟨i, ⟨offset, howns, by rw [hlocal]; exact le_rfl⟩, hhash, rfl⟩
          exact (hnone rfl _ hmem (setup.key_elementPool i howns.inPool)).elim
      | some node => exact ⟨⟨node, hfinal⟩, hring⟩

end Enter

/-- Taking a free lock. -/
theorem step_take (hinv : Invariant setup config) {phase : Phase} {i sublist : Int}
    (hlocal : config.locals offset = .acquire phase i sublist)
    (hheld : config.shared.locks sublist = some 0) :
    Invariant setup
      ⟨{ config.shared with locks := Function.update config.shared.locks sublist (some 1) },
        Function.update config.locals offset (setup.enter i sublist phase)⟩ := by
  have hfits := hinv.fits offset
  rw [hlocal] at hfits
  obtain ⟨j, hj, rfl, -⟩ := hinv.sublist_eq _ hfits
  have hrange : (0 : Int) ≤ j ∧ (j : Int) < setup.nLists := by omega
  obtain ⟨control, henter⟩ : ∃ control, setup.enter i j phase = .call phase i j control :=
    ⟨_, by rw [Setup.enter, if_pos hrange]⟩
  have hnone : ∀ other, holds (config.locals other) ≠ some (j : Int) := by
    intro other hholds
    obtain ⟨held, hlock, hne⟩ := hinv.exclusive.owned_locked other j hholds
    rw [hheld] at hlock
    exact hne (Option.some.inj hlock).symm
  have hin : ∀ e, inList e (setup.enter i j phase) ↔ inList e (config.locals offset) := by
    intro e
    rw [hlocal, henter]
    rfl
  refine hinv.move hj (by rw [henter]; exact hfits) (update_isSome hheld 1) (fun _ h => h)
    (.acquire j ?_ ?_ (by rw [henter]; rfl) fun other => ?_) (fun _ _ => rfl) ?_ ?_
    (fun e _ _ => hin e) fun contents hlist => ⟨contents, ?_⟩
  · rw [hlocal]
    rfl
  · intro ⟨held, hlock, hne⟩
    rw [hheld] at hlock
    exact hne (Option.some.inj hlock).symm
  · rw [locked_update]
    by_cases heq : other = j <;> simp [heq]
  · simp [hlocal, holds]
  · simp [henter, holds]
  · refine .own (fun other _ => hnone other) (member_iff hlist fun e _ => hin e) hlist.nodup
      hlist.descending
      (fun hholds => ?_) fun _ => ?_
    · simp [henter, holds] at hholds
    · exact hinv.duty_enter hj hlocal hlist (hlist.free hnone)

/-- A thread that waits for a taken lock changes nothing but its own state. -/
theorem step_wait (hinv : Invariant setup config) {phase : Phase} {i sublist : Int}
    {shared : Shared α} {state : Local α}
    (hstate : state = .acquire phase i sublist ∨ state = .spin phase i sublist)
    (hlocal : config.locals offset = .acquire phase i sublist ∨
      config.locals offset = .spin phase i sublist)
    (hnodes : shared.nodes = config.shared.nodes)
    (hlocks : ∀ sublist, (shared.locks sublist).isSome ↔ (config.shared.locks sublist).isSome)
    (hlocked : ∀ sublist, locked shared sublist ↔ locked config.shared sublist) :
    Invariant setup ⟨shared, Function.update config.locals offset state⟩ := by
  have hfits := hinv.fits offset
  rcases hstate with rfl | rfl <;> rcases hlocal with hlocal | hlocal <;> rw [hlocal] at hfits <;>
    exact hinv.pass hfits hnodes hlocks hlocked (by rw [hlocal]; rfl) rfl
      fun e _ => by simp [hlocal, inList]

/-- Giving the lock back. -/
theorem step_release (hinv : Invariant setup config) {phase : Phase} {i sublist held : Int}
    (hlocal : config.locals offset = .release phase i sublist)
    (hheld : config.shared.locks sublist = some held) :
    Invariant setup
      ⟨{ config.shared with locks := Function.update config.shared.locks sublist (some 0) },
        Function.update config.locals offset (.test phase (i + 1))⟩ := by
  have hfits := hinv.fits offset
  rw [hlocal] at hfits
  obtain ⟨j, hj, rfl, -⟩ := hinv.sublist_eq _ hfits
  obtain ⟨⟨hfirst, hbound⟩, -⟩ := hfits
  have hholds : holds (config.locals offset) = some (j : Int) := by rw [hlocal]; rfl
  have hin : ∀ e, inList e (.test phase (i + 1) : Local α) ↔ inList e (config.locals offset) := by
    intro e
    rw [hlocal]
    rfl
  refine hinv.move hj ⟨by omega, hbound⟩ (update_isSome hheld 0) (fun _ h => h)
    (.release j hholds rfl fun other => ?_) (fun _ _ => rfl) ?_ (by simp [holds])
    (fun e _ _ => hin e) fun contents hlist => ⟨contents, ?_⟩
  · rw [locked_update]
    by_cases heq : other = j <;> simp [heq]
  · simp [hholds]
  · have hduty := hlist.held offset hholds
    rw [hlocal] at hduty
    exact .own (hinv.others hholds) (member_iff hlist fun e _ => hin e) hlist.nodup
      hlist.descending
      (fun _ => hduty) (by simp [holds])

/-- A memory access inside a list function. -/
theorem step_run (hinv : Invariant setup config) {j : Nat} (hj : j < setup.nLists)
    {control control' : Control α} {nodes : Memory (Cell α) α} {resume : Control α → Local α}
    (hlocal : config.locals offset = resume control)
    (hfits : ∀ control, Fits setup offset (resume control) ↔ Fits setup offset (resume control'))
    (hholds : ∀ control, holds (resume control) = some (j : Int))
    (hin : ∀ e control, inList e (resume control) ↔ inList e (resume control'))
    (hcritical : ∀ contents, ∃ result left, ∀ control,
      critical setup contents (resume control) = some ⟨control, result, left⟩)
    (hnext : Atomic.next (program setup.key) (config.shared.nodes, control) =
      some (nodes, control')) :
    Invariant setup ⟨{ config.shared with nodes },
      Function.update config.locals offset (resume control')⟩ := by
  have hmine : holds (config.locals offset) = some (j : Int) := by rw [hlocal, hholds]
  have hin' : ∀ e, inList e (resume control') ↔ inList e (config.locals offset) := by
    intro e
    rw [hlocal, hin e control]
  have hduty : ∀ contents, ListInv setup config.locals config.shared.nodes j contents →
      Duty setup nodes j contents (resume control') ∧
        ∀ field ∉ region setup j, nodes field = config.shared.nodes field := by
    intro contents hlist
    have hheld := hlist.held offset hmine
    obtain ⟨result, left, hsect⟩ := hcritical contents
    rw [hlocal, Duty, hsect] at hheld
    rw [Duty, hsect]
    exact hheld.next_eq hnext
  obtain ⟨contents, hlist⟩ := hinv.lists j hj
  refine hinv.move hj ((hfits control).1 (hlocal ▸ hinv.fits offset)) (fun _ => .rfl)
    (fun _ => next_isSome hnext) (.keep (by rw [hmine, hholds]) fun _ => .rfl)
    (hduty contents hlist).2 (by simp [hmine]) (by simp [hholds]) (fun e _ _ => hin' e)
    fun contents hlist => ⟨contents, ?_⟩
  exact .own (hinv.others hmine) (member_iff hlist fun e _ => hin' e) hlist.nodup
    hlist.descending (by simp [hholds]) fun _ => (hduty contents hlist).1

/-- Leaving a list function with the lock still held. -/
theorem step_return (hinv : Invariant setup config) {j : Nat} (hj : j < setup.nLists)
    {after : Local α} (hfits : Fits setup offset after)
    (hbefore : holds (config.locals offset) = some (j : Int))
    (hafter : holds after = some (j : Int))
    (hin : ∀ e, Owns setup offset e → hashOf setup e ≠ j →
      (inList e after ↔ inList e (config.locals offset)))
    (hleft : ∀ contents, ListInv setup config.locals config.shared.nodes j contents →
      ∃ left : List α, left.Nodup ∧ Descending setup.key left ∧
        (∀ node, node ∈ left ↔ ∃ e,
          Present setup (Function.update config.locals offset after) e ∧ hashOf setup e = j ∧
            node = setup.elementPool e) ∧
        Duty setup config.shared.nodes j left after) :
    Invariant setup ⟨config.shared, Function.update config.locals offset after⟩ := by
  refine hinv.move hj hfits (fun _ => .rfl) (fun _ h => h)
    (.keep (by rw [hbefore, hafter]) fun _ => .rfl) (fun _ _ => rfl) (by simp [hbefore])
    (by simp [hafter]) hin fun contents hlist => ?_
  obtain ⟨left, hnodup, hdescending, hmember, hduty⟩ := hleft contents hlist
  exact ⟨left, .own (hinv.others hbefore) hmember hnodup hdescending (by simp [hafter])
    fun _ => hduty⟩

/-- After `SortedList_insert` the element is in its list. -/
theorem step_inserted (hinv : Invariant setup config) {i sublist : Int}
    (hlocal : config.locals offset = .call .insertion i sublist .inserted) :
    Invariant setup ⟨config.shared,
      Function.update config.locals offset (.release .insertion i sublist)⟩ := by
  have hfits := hinv.fits offset
  rw [hlocal] at hfits
  obtain ⟨j, hj, rfl, -⟩ := hinv.sublist_eq _ hfits
  obtain ⟨howns, hhash⟩ := owns_of_body (by simp) hfits
  have hholds : holds (config.locals offset) = some (j : Int) := by rw [hlocal]; rfl
  refine hinv.step_return hj hfits hholds rfl (fun e _ hne => ?_) fun contents hlist => ?_
  · have hei : e ≠ i := fun heq => hne (heq ▸ hhash)
    rw [hlocal]
    simp only [inList, Phase.inList]
    omega
  · have hsect : critical setup contents (config.locals offset) =
        some ⟨.inserted, (· = .inserted), place setup.key (setup.elementPool i) contents⟩ := by
      rw [hlocal]
      rfl
    obtain ⟨-, hring⟩ := hlist.halted hholds hsect rfl
    refine ⟨_, (List.nodup_cons.1 hring.nodup).2, descending_place hlist.descending,
      fun node => ?_, hring⟩
    rw [mem_place, hlist.member]
    constructor
    · rintro (rfl | ⟨e, hpresent, hhash', rfl⟩)
      · refine ⟨i, (present_iff howns).2 ?_, hhash, rfl⟩
        simp [inList, Phase.inList]
      · refine ⟨e, ?_, hhash', rfl⟩
        by_cases he : Owns setup offset e
        · rw [present_iff he, hlocal] at hpresent
          rw [present_iff he, Function.update_self]
          exact hpresent.trans (Int.lt_succ i)
        · rwa [present_update_iff he]
    · rintro ⟨e, hpresent, hhash', rfl⟩
      by_cases he : Owns setup offset e
      · rw [present_iff he, Function.update_self] at hpresent
        rcases (Int.lt_add_one_iff.1 hpresent).lt_or_eq with hlt | rfl
        · refine .inr ⟨e, (present_iff he).2 ?_, hhash', rfl⟩
          rw [hlocal]
          exact hlt
        · exact .inl rfl
      · exact .inr ⟨e, (present_update_iff he).1 hpresent, hhash', rfl⟩

/-- After `SortedList_length` nothing has changed. -/
theorem step_measured (hinv : Invariant setup config) {i sublist count : Int}
    (hlocal : config.locals offset = .call .length i sublist (.measured count)) :
    0 ≤ count ∧ Invariant setup ⟨config.shared,
      Function.update config.locals offset (.release .length i sublist)⟩ := by
  have hfits := hinv.fits offset
  rw [hlocal] at hfits
  obtain ⟨j, hj, rfl, -⟩ := hinv.sublist_eq _ hfits
  have hholds : holds (config.locals offset) = some (j : Int) := by rw [hlocal]; rfl
  have hend : ∀ contents, ListInv setup config.locals config.shared.nodes j contents →
      0 ≤ count ∧ Ring config.shared.nodes (setup.globalList j :: contents) := by
    intro contents hlist
    have hsect : critical setup contents (config.locals offset) =
        some ⟨.measured count, (∃ n : Nat, · = .measured n), contents⟩ := by
      rw [hlocal]
      rfl
    obtain ⟨⟨n, hcount⟩, hring⟩ := hlist.halted hholds hsect rfl
    cases hcount
    exact ⟨Int.natCast_nonneg n, hring⟩
  have hin : ∀ e, inList e (.release .length i (j : Int) : Local α) ↔
      inList e (config.locals offset) := by
    intro e
    rw [hlocal]
    rfl
  obtain ⟨contents, hlist⟩ := hinv.lists j hj
  refine ⟨(hend contents hlist).1, ?_⟩
  exact hinv.step_return hj hfits hholds rfl (fun e _ _ => hin e) fun contents hlist =>
    ⟨contents, hlist.nodup, hlist.descending, member_iff hlist fun e _ => hin e,
      (hend contents hlist).2⟩

/-- `SortedList_lookup` has found a node, and `SortedList_delete` of the thread's own element is
about to start. -/
theorem step_found (hinv : Invariant setup config) {i sublist : Int} {node? : Option α}
    (hlocal : config.locals offset = .call .lookup i sublist (.found node?)) :
    node? ≠ none ∧ Invariant setup ⟨config.shared, Function.update config.locals offset
      (.deletion i sublist (.deleteStart (setup.elementPool i)))⟩ := by
  have hfits := hinv.fits offset
  rw [hlocal] at hfits
  obtain ⟨j, hj, rfl, -⟩ := hinv.sublist_eq _ hfits
  obtain ⟨howns, hhash⟩ := owns_of_body (by simp) hfits
  have hholds : holds (config.locals offset) = some (j : Int) := by rw [hlocal]; rfl
  have hend : ∀ contents, ListInv setup config.locals config.shared.nodes j contents →
      node? ≠ none ∧ Ring config.shared.nodes (setup.globalList j :: contents) := by
    intro contents hlist
    have hsect : critical setup contents (config.locals offset) =
        some ⟨.found node?, (∃ node, · = .found (some node)), contents⟩ := by
      rw [hlocal]
      rfl
    obtain ⟨⟨node, hfound⟩, hring⟩ := hlist.halted hholds hsect rfl
    cases hfound
    exact ⟨by simp, hring⟩
  have hin : ∀ e, inList e (.deletion i (j : Int) (.deleteStart (setup.elementPool i)) : Local α) ↔
      inList e (config.locals offset) := by
    intro e
    rw [hlocal]
    rfl
  obtain ⟨contents, hlist⟩ := hinv.lists j hj
  refine ⟨(hend contents hlist).1, ?_⟩
  refine hinv.step_return hj hfits hholds rfl (fun e _ _ => hin e) fun contents hlist =>
    ⟨contents, hlist.nodup, hlist.descending, member_iff hlist fun e _ => hin e, ?_⟩
  have hmem : setup.elementPool i ∈ contents := (hlist.member _).2
    ⟨i, (present_iff howns).2 (by rw [hlocal]; exact le_rfl), hhash, rfl⟩
  refine (delete_mem_completes (hend contents hlist).2 hmem (hlist.keyed _ hmem)).mono
    (fun field hfield => hlist.belongs hfield) fun _ _ hpost => hpost

/-- The elements of a list when its owner has deleted one more. -/
theorem member_deleted {i code : Int} {j : Nat} {contents : List α} (howns : Owns setup offset i)
    (hlocal : config.locals offset = .deletion i j (.deleted code))
    (hlist : ListInv setup config.locals config.shared.nodes j contents) (node : α) :
    node ∈ contents.erase (setup.elementPool i) ↔ ∃ e,
      Present setup (Function.update config.locals offset (.release .lookup i j)) e ∧
        hashOf setup e = j ∧ node = setup.elementPool e := by
  rw [hlist.nodup.mem_erase_iff, hlist.member]
  constructor
  · rintro ⟨hne, e, hpresent, hhash, rfl⟩
    refine ⟨e, ?_, hhash, rfl⟩
    by_cases he : Owns setup offset e
    · rw [present_iff he, hlocal] at hpresent
      rw [present_iff he, Function.update_self]
      exact lt_of_le_of_ne hpresent fun heq => hne (heq ▸ rfl)
    · rwa [present_update_iff he]
  · rintro ⟨e, hpresent, hhash, rfl⟩
    by_cases he : Owns setup offset e
    -- of its own elements the thread has left those behind `i`
    · rw [present_iff he, Function.update_self] at hpresent
      have hlt : i < e := hpresent
      refine ⟨fun heq => ?_, e, (present_iff he).2 ?_, hhash, rfl⟩
      · have := setup.elementPool_inj e he.inPool i howns.inPool heq
        omega
      · rw [hlocal]
        exact hlt.le
    -- another thread's element is another element
    · rw [present_update_iff he] at hpresent
      refine ⟨fun heq => ?_, e, hpresent, hhash, rfl⟩
      obtain ⟨other, hother, -⟩ := hpresent
      exact he (setup.elementPool_inj e hother.inPool i howns.inPool heq ▸ howns)

/-- After `SortedList_delete` the element is out of its list. -/
theorem step_deleted (hinv : Invariant setup config) {i sublist code : Int}
    (hlocal : config.locals offset = .deletion i sublist (.deleted code)) :
    code = 0 ∧ Invariant setup ⟨config.shared,
      Function.update config.locals offset (.release .lookup i sublist)⟩ := by
  have hfits := hinv.fits offset
  rw [hlocal] at hfits
  obtain ⟨j, hj, rfl, -⟩ := hinv.sublist_eq .lookup hfits
  obtain ⟨howns, hhash⟩ := owns_of_body (by simp) hfits
  have hholds : holds (config.locals offset) = some (j : Int) := by rw [hlocal]; rfl
  have hend : ∀ contents, ListInv setup config.locals config.shared.nodes j contents →
      code = 0 ∧ Ring config.shared.nodes
        (setup.globalList j :: contents.erase (setup.elementPool i)) := by
    intro contents hlist
    have hsect : critical setup contents (config.locals offset) =
        some ⟨.deleted code, (· = .deleted 0), contents.erase (setup.elementPool i)⟩ := by
      rw [hlocal]
      rfl
    obtain ⟨hcode, hring⟩ := hlist.halted hholds hsect rfl
    cases hcode
    exact ⟨rfl, hring⟩
  obtain ⟨contents, hlist⟩ := hinv.lists j hj
  refine ⟨(hend contents hlist).1, ?_⟩
  refine hinv.step_return hj hfits hholds rfl (fun e _ hne => ?_) fun contents hlist => ?_
  · have hei : e ≠ i := fun heq => hne (heq ▸ hhash)
    rw [hlocal]
    simp only [inList, Phase.inList]
    omega
  · exact ⟨_, hlist.nodup.erase _, hlist.descending.sublist List.erase_sublist,
      member_deleted howns hlocal hlist, (hend contents hlist).2⟩

/-- One step inside the list function of a loop body. -/
theorem step_call (hinv : Invariant setup config) {phase : Phase} {i sublist : Int}
    {control : Control α} (hlocal : config.locals offset = .call phase i sublist control)
    {shared : Shared α} {after : Local α}
    (hstep : advance setup config.shared control (setup.afterCall i sublist phase control)
      (.call phase i sublist) = (shared, after)) :
    Invariant setup ⟨shared, Function.update config.locals offset after⟩ := by
  cases hafter : setup.afterCall i sublist phase control with
  | some following =>
      simp only [advance, hafter, Prod.mk.injEq] at hstep
      obtain ⟨rfl, rfl⟩ := hstep
      unfold Setup.afterCall at hafter
      split at hafter <;> cases hafter
      · exact hinv.step_inserted hlocal
      · obtain ⟨hcount, hnext⟩ := hinv.step_measured hlocal
        rwa [if_neg (by omega)]
      · exact ((hinv.step_found hlocal).1 rfl).elim
      · exact (hinv.step_found hlocal).2
  | none =>
      have hfits := hinv.fits offset
      rw [hlocal] at hfits
      obtain ⟨j, hj, rfl, -⟩ := hinv.sublist_eq _ hfits
      have hholds : holds (config.locals offset) = some (j : Int) := by rw [hlocal]; rfl
      obtain ⟨contents, hlist⟩ := hinv.lists j hj
      have hresume : ∀ contents, ∃ result left, ∀ control,
          critical setup contents (.call phase i (j : Int) control) =
            some ⟨control, result, left⟩ := by
        intro contents
        cases phase <;> exact ⟨_, _, fun _ => rfl⟩
      have hprogress : ∃ nodes control', Atomic.next (program setup.key)
          (config.shared.nodes, control) = some (nodes, control') := by
        obtain ⟨result, left, hsect⟩ := hresume contents
        rcases hlist.progress hholds (by rw [hlocal, hsect control]) with hresult | hnext
        · exfalso
          have hcritical := hsect control
          cases phase <;> cases hcritical
          · cases hresult
            simp [Setup.afterCall] at hafter
          · obtain ⟨n, rfl⟩ := hresult
            simp [Setup.afterCall] at hafter
          · obtain ⟨node, rfl⟩ := hresult
            simp [Setup.afterCall] at hafter
        · exact hnext
      obtain ⟨nodes, control', hnext⟩ := hprogress
      simp only [advance, hafter, hnext, Prod.mk.injEq] at hstep
      obtain ⟨rfl, rfl⟩ := hstep
      exact hinv.step_run hj hlocal (fun _ => .rfl) (fun _ => rfl) (fun _ _ => .rfl) hresume hnext

/-- One step inside `SortedList_delete`. -/
theorem step_deletion (hinv : Invariant setup config) {i sublist : Int}
    {control : Control α} (hlocal : config.locals offset = .deletion i sublist control)
    {shared : Shared α} {after : Local α}
    (hstep : advance setup config.shared control (afterDelete i sublist control)
      (.deletion i sublist) = (shared, after)) :
    Invariant setup ⟨shared, Function.update config.locals offset after⟩ := by
  cases hafter : afterDelete i sublist control with
  | some following =>
      simp only [advance, hafter, Prod.mk.injEq] at hstep
      obtain ⟨rfl, rfl⟩ := hstep
      unfold afterDelete at hafter
      split at hafter <;> cases hafter
      obtain ⟨rfl, hnext⟩ := hinv.step_deleted hlocal
      exact hnext
  | none =>
      have hfits := hinv.fits offset
      rw [hlocal] at hfits
      obtain ⟨j, hj, rfl, -⟩ := hinv.sublist_eq .lookup hfits
      have hholds : holds (config.locals offset) = some (j : Int) := by rw [hlocal]; rfl
      obtain ⟨contents, hlist⟩ := hinv.lists j hj
      rcases hlist.progress hholds (by rw [hlocal]; rfl) with hresult | ⟨nodes, control', hnext⟩
      · cases hresult
        simp [afterDelete] at hafter
      · simp only [advance, hafter, hnext, Prod.mk.injEq] at hstep
        obtain ⟨rfl, rfl⟩ := hstep
        exact hinv.step_run hj hlocal (fun _ => .rfl) (fun _ => rfl) (fun _ _ => .rfl)
          (fun _ => ⟨_, _, fun _ => rfl⟩) hnext

/-- One try to get the lock of a list. -/
theorem step_acquire (hinv : Invariant setup config) {phase : Phase} {i sublist : Int}
    (hlocal : config.locals offset = .acquire phase i sublist) {shared : Shared α} {after : Local α}
    (hnext : listThrd setup offset config.shared (config.locals offset) = some (shared, after)) :
    Invariant setup ⟨shared, Function.update config.locals offset after⟩ := by
  have hfits := hinv.fits offset
  rw [hlocal] at hfits
  obtain ⟨-, -, -, held, hheld⟩ := hinv.sublist_eq _ hfits
  have hrelock : held ≠ 0 → ∀ other, locked { config.shared with
      locks := Function.update config.shared.locks sublist (some 1) } other ↔
        locked config.shared other := by
    intro hne other
    rw [locked_update]
    by_cases heq : other = sublist
    · simp [heq, locked, hheld, hne]
    · simp [heq]
  cases hsync : setup.syncType with
  | m =>
      simp only [hlocal, listThrd, hheld, hsync, Option.ite_none_right_eq_some,
        Option.some.injEq, Prod.mk.injEq] at hnext
      obtain ⟨rfl, rfl, rfl⟩ := hnext
      exact hinv.step_take hlocal hheld
  | s =>
      -- the exchange stores 1 either way, and the old value decides
      simp only [hlocal, listThrd, hheld, hsync, Option.some.injEq, Prod.mk.injEq] at hnext
      obtain ⟨rfl, rfl⟩ := hnext
      split
      · next hfree => exact hinv.step_take hlocal (hfree ▸ hheld)
      · next htaken =>
          exact hinv.step_wait (.inr rfl) (.inl hlocal) rfl (update_isSome hheld 1)
            (hrelock htaken)

/-- Every step of every thread keeps the invariant. -/
theorem step (hinv : Invariant setup config) {event : Event (Fin setup.nThreads) (Local α)}
    {config' : Config (Fin setup.nThreads) (Shared α) (Local α)}
    (hstep : Step (listThrd setup) config event config') : Invariant setup config' := by
  obtain ⟨hnext⟩ := hstep
  rename_i offset shared after
  have hfits := hinv.fits offset
  cases hlocal : config.locals offset with
  | test phase i =>
      simp only [hlocal, listThrd, Option.some.injEq, Prod.mk.injEq] at hnext
      obtain ⟨rfl, rfl⟩ := hnext
      exact hinv.step_test hlocal
  | acquire phase i sublist =>
      exact hinv.step_acquire hlocal hnext
  | spin phase i sublist =>
      rw [hlocal] at hfits
      obtain ⟨-, -, -, held, hheld⟩ := hinv.sublist_eq _ hfits
      simp only [hlocal, listThrd, hheld, Option.some.injEq, Prod.mk.injEq] at hnext
      obtain ⟨rfl, rfl⟩ := hnext
      refine hinv.step_wait ?_ (.inr hlocal) rfl (fun _ => .rfl) (fun _ => .rfl)
      split
      · exact .inl rfl
      · exact .inr rfl
  | call phase i sublist control =>
      simp only [hlocal, listThrd, Option.some.injEq] at hnext
      exact hinv.step_call hlocal hnext
  | deletion i sublist control =>
      simp only [hlocal, listThrd, Option.some.injEq] at hnext
      exact hinv.step_deletion hlocal hnext
  | release phase i sublist =>
      rw [hlocal] at hfits
      obtain ⟨-, -, -, held, hheld⟩ := hinv.sublist_eq _ hfits
      simp only [hlocal, listThrd, hheld, Option.some.injEq, Prod.mk.injEq] at hnext
      obtain ⟨rfl, rfl⟩ := hnext
      exact hinv.step_release hlocal hheld
  | returned => simp [hlocal, listThrd] at hnext
  | corrupt => simp [hlocal, listThrd] at hnext

/-- The invariant holds when `main` has created the threads. -/
theorem initial {shared : Shared α} (hstart : Start setup shared) :
    Invariant setup (initial setup shared) := by
  have hholds : ∀ offset, holds ((ListThreads.initial setup shared).locals offset) = none :=
    fun _ => rfl
  have hnone : ∀ e, ¬ Present setup (ListThreads.initial setup shared).locals e :=
    fun e ⟨_, howns, hin⟩ => howns.not_lt_first hin
  refine ⟨fun offset => ⟨le_rfl, first_le_bound offset .insertion⟩, fun sublist => ?_,
    hstart.elements, .of_free hholds ?_, fun j hj => ⟨[], ?_⟩⟩
  · simp only [ListThreads.initial, hstart.locks]
    split <;> simp_all
  · intro lock ⟨held, hlock, hne⟩
    simp only [ListThreads.initial, hstart.locks] at hlock
    split at hlock <;> simp_all
  · refine ⟨fun node => ?_, .nil, .nil, fun _ => ?_, by simp [hholds]⟩
    · simp only [List.not_mem_nil, false_iff, not_exists]
      exact fun e h => hnone e h.1
    · obtain ⟨hnext, hprev⟩ := hstart.lists j hj
      exact ring_cons_iff.2 ⟨by simp, by simp [Linked, ListThreads.initial, hnext, hprev]⟩

end Invariant

/-! ## Whole runs -/

/-- Every reachable state satisfies the invariant. -/
theorem invariant_of_run [setup.InRange] {shared : Shared α}
    {events : List (Event (Fin setup.nThreads) (Local α))}
    {final : Config (Fin setup.nThreads) (Shared α) (Local α)} (hstart : Start setup shared)
    (h : Run (listThrd setup) (initial setup shared) events final) : Invariant setup final :=
  h.invariant (fun _ config => Invariant setup config) (.initial hstart)
    fun _ _ _ _ hinv hstep => hinv.step hstep

/-- When all threads have returned, every list is an empty ring. -/
theorem Invariant.empty (hinv : Invariant setup config)
    (hreturned : ∀ offset, config.locals offset = .returned) {j : Nat} (hj : j < setup.nLists) :
    Ring config.shared.nodes [setup.globalList j] := by
  obtain ⟨contents, hlist⟩ := hinv.lists j hj
  have hring := hlist.free fun offset => by simp [hreturned offset, holds]
  cases contents with
  | nil => exact hring
  | cons node contents =>
      obtain ⟨e, ⟨offset, -, hin⟩, -⟩ := (hlist.member node).1 List.mem_cons_self
      rw [hreturned offset] at hin
      exact hin.elim

/-- `SortedList_length` of an empty ring returns 0. -/
theorem length_returns_zero {nodes : Memory (Cell α) α} {list : α} (h : Ring nodes [list]) :
    Returns (program setup.key) nodes (.lengthStart list) nodes (.measured 0) := by
  have hcompletes : Completes (program setup.key) _ _ nodes (.lengthStart list) :=
    length_completes h
  obtain ⟨result, final, hret, ⟨rfl, rfl⟩, -⟩ := hcompletes.returns
  exact hret

/-- `main`'s loop passes from list `i` on when every list is empty. -/
theorem final_check_of_empty {nodes : Memory (Cell α) α}
    (h : ∀ j < setup.nLists, Ring nodes [setup.globalList j]) (i : Nat) :
    FinalCheck setup nodes i 0 := by
  by_cases hi : i < setup.nLists
  · exact .next hi (length_returns_zero (h i hi)) rfl (final_check_of_empty h (i + 1))
  · exact .done hi
termination_by setup.nLists - i

/-- If the number of elements is an `int`, no thread reaches `sig_corrupt`, no list function under a
lock gives the result that would lead there, and once all threads have returned every list has
length 0 and `main`'s check passes. -/
theorem list_threads_safe (hint : setup.nThreads * setup.nIterations ≤ 2147483647)
    {shared : Shared α} {events : List (Event (Fin setup.nThreads) (Local α))}
    {final : Config (Fin setup.nThreads) (Shared α) (Local α)} (hstart : Start setup shared)
    (h : Run (listThrd setup) (ListThreads.initial setup shared) events final) :
    (∀ offset, final.locals offset ≠ .corrupt) ∧
    (∀ offset i sublist, final.locals offset ≠ .call .length i sublist (.measured (-1))) ∧
    (∀ offset i sublist, final.locals offset ≠ .call .lookup i sublist (.found none)) ∧
    (∀ offset i sublist, final.locals offset ≠ .deletion i sublist (.deleted 1)) ∧
    ((∀ offset, final.locals offset = .returned) →
      (∀ j < setup.nLists, Returns (program setup.key) final.shared.nodes
        (.lengthStart (setup.globalList j)) final.shared.nodes (.measured 0)) ∧
      FinalCheck setup final.shared.nodes 0 0) := by
  have : setup.InRange := ⟨hint⟩
  have hinv := invariant_of_run hstart h
  refine ⟨fun offset hcorrupt => ?_, fun offset i sublist hlocal => ?_,
    fun offset i sublist hlocal => ?_, fun offset i sublist hlocal => ?_, fun hreturned => ?_⟩
  · have hfits := hinv.fits offset
    rw [hcorrupt] at hfits
    exact hfits
  · have hcount := (hinv.step_measured hlocal).1
    omega
  · exact (hinv.step_found hlocal).1 rfl
  · have hcode := (hinv.step_deleted hlocal).1
    omega
  · have hempty := fun j hj => hinv.empty hreturned (j := j) hj
    exact ⟨fun j hj => length_returns_zero (hempty j hj), final_check_of_empty hempty 0⟩

/-! ## One list and two elements -/

/-- The key `"k0"` or `"k1"`. -/
def elementKey (second : Bool) : CString :=
  ⟨[107, if second then 49 else 48], by cases second <;> decide⟩

/-- One list, and a pool of two elements. -/
def twoElements (options : Options) (hpool : options.nElements = 2) (hlists : options.nLists = 1) :
    Setup (Option Bool) where
  toOptions := options
  globalList _ := none
  elementPool i := some (decide (i = 1))
  key node := node.map elementKey
  elemKey i := elementKey (decide (i = 1))
  lists_pos := by omega
  globalList_inj i hi j hj _ := by omega
  elementPool_inj i hi j hj heq := by
    have hiff : i = 1 ↔ j = 1 := by simpa using heq
    simp only [Options.InPool] at hi hj
    omega
  key_globalList _ _ := rfl
  key_elementPool _ _ := rfl
  alphanumeric i _ := by cases h : decide (i = 1) <;> simp [elementKey, IsAlphanumeric]

/-- The heap and the lock array in front of the threads. -/
def oneListShared : Shared (Option Bool) where
  nodes field := some field.node
  locks i := if 0 ≤ i ∧ i < 1 then some 0 else none

theorem twoElements_start (options : Options) (hpool : options.nElements = 2)
    (hlists : options.nLists = 1) : Start (twoElements options hpool hlists) oneListShared where
  pool := by
    show 0 ≤ options.nElements
    omega
  lists _ _ := ⟨rfl, rfl⟩
  elements _ _ := ⟨rfl, rfl⟩
  locks i := by simp [oneListShared, twoElements, hlists]

/-- Two threads with one element each. -/
def pair (syncType : SyncType) : Setup (Option Bool) :=
  twoElements ⟨2, 1, 1, syncType⟩ (by cases syncType <;> decide) rfl

/-- The first thread inserts its element while the second tries to take the lock and spins; then the
second inserts its own. -/
def pairInsertions : List (Fin 2) :=
  let first : Fin 2 := ⟨0, Nat.zero_lt_two⟩
  let second : Fin 2 := ⟨1, Nat.one_lt_two⟩
  [first, first, second, second, second] ++ List.replicate 11 first ++ List.replicate 13 second

/-- Then the first runs to its end, and the second. -/
theorem pair_run : ∃ events final,
    Run (listThrd (pair .s)) (initial (pair .s) oneListShared) events final ∧
      ∀ offset, final.locals offset = .returned := by
  obtain ⟨⟨events, final⟩, hreplay, hfirst, hsecond⟩ : ∃ result ∈
      replay (listThrd (pair .s)) (pairInsertions ++ List.replicate 41 0 ++ List.replicate 34 1)
        (initial (pair .s) oneListShared),
      result.2.locals (0 : Fin 2) = .returned ∧ result.2.locals (1 : Fin 2) = .returned := by
    decide +kernel
  have hall : ∀ offset : Fin 2, final.locals offset = .returned
    | 0 => hfirst
    | 1 => hsecond
  exact ⟨_, final, Run.start.replay hreplay, hall⟩

/-- `main` finds nothing wrong. -/
theorem pair_safe : ∃ events final,
    Run (listThrd (pair .s)) (initial (pair .s) oneListShared) events final ∧
      (∀ offset, final.locals offset = .returned) ∧
      FinalCheck (pair .s) final.shared.nodes 0 0 := by
  obtain ⟨events, final, hrun, hall⟩ := pair_run
  have hint : (pair .s).nThreads * (pair .s).nIterations ≤ 2147483647 := by decide
  have hsafe := list_threads_safe hint (twoElements_start ..) hrun
  exact ⟨_, final, hrun, hall, (hsafe.2.2.2.2 hall).2⟩

/-- Three threads and so many iterations that their product, 4294967298, leaves a pool of two
elements. -/
def large : Setup (Option Bool) :=
  twoElements ⟨3, 1431655766, 1, .m⟩ (by decide) rfl

/-- The first thread comes to the end of the pool alone. -/
theorem large_corrupt : Start large oneListShared ∧ ∃ events final,
    Run (listThrd large) (initial large oneListShared) events final ∧
      final.locals (0 : Fin 3) = .corrupt := by
  obtain ⟨⟨events, final⟩, hreplay, hcorrupt⟩ : ∃ result ∈
      replay (listThrd large) (List.replicate 27 (0 : Fin 3)) (initial large oneListShared),
      result.2.locals (0 : Fin 3) = .corrupt := by decide +kernel
  exact ⟨twoElements_start .., _, final, Run.start.replay hreplay, hcorrupt⟩

end Coursework.ListThreads
