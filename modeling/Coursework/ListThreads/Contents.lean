import Coursework.ListThreads.Waiting
import Coursework.SortedList.Histories

/-!
# The lists of the threads and the completed calls

`completedOps` lists the calls of `SortedList_insert` and `SortedList_delete` that have returned in
a run, in the order of their returns, whatever threads made them. `owner` computes from them which
list a node is in as if they had been made one after the other, and this is what the threads leave:
a list whose lock is free is a ring of exactly the nodes it owns (`lists_of_run`).
Vocabulary and scope: `Coursework.ListThreads.Waiting`, `Coursework.SortedList.Histories`.
-/

namespace Coursework.ListThreads

open Atomic Heap SortedList

variable {α : Type} (setup : Setup α)

/-- The call that returns in a step. -/
def completedOp (event : Event (Fin setup.nThreads) (Local α)) : Option (Op α) :=
  match event.before, event.after with
  | .call .insertion i sublist _, .release _ _ _ =>
      some (.insert (setup.globalList sublist.toNat) (setup.elementPool i))
  | .deletion i _ _, .release _ _ _ => some (.delete (setup.elementPool i))
  | _, _ => none

/-- The calls that have returned in a run. -/
def completedOps (events : List (Event (Fin setup.nThreads) (Local α))) : List (Op α) :=
  events.filterMap (completedOp setup)

variable {setup} [DecidableEq α] {offset : Fin setup.nThreads} {shared shared' : Shared α}
  {before after : Local α}

/-- The lookup of an element is followed by its deletion, not by the release of the lock. -/
theorem not_release_of_lookup {phase : Phase} {i sublist : Int} {control : Control α}
    (hnext : listThrd setup offset shared (.call .lookup i sublist control) =
      some (shared', .release phase i sublist)) : False := by
  simp only [listThrd, advance, Option.some.injEq] at hnext
  split at hnext
  · next hafter =>
      cases hnext
      cases control with
      | found node? => cases node? <;> simp [Setup.afterCall] at hafter
      | _ => simp [Setup.afterCall] at hafter
  · split at hnext <;> cases hnext

/-- A step that completes no call leaves the elements of its thread where they are. -/
theorem inList_iff_of_none [setup.InRange] (hfits : Fits setup offset before)
    (hnext : listThrd setup offset shared before = some (shared', after))
    (hafter : after ≠ .corrupt)
    (hnone : completedOp setup ⟨offset, before, after⟩ = none) {e : Int}
    (howns : Owns setup offset e) : inList e after ↔ inList e before := by
  cases (moves_of_listThrd hnext).resolve_left hafter with
  | @leave phase i hge =>
      rw [Int.le_antisymm hfits.2 (Int.not_lt.1 hge)]
      exact Invariant.inList_following_iff phase howns
  | @called phase i sublist control =>
      cases phase with
      | insertion => simp [completedOp] at hnone
      | length => exact .rfl
      | lookup => exact (not_release_of_lookup hnext).elim
  | deleted => simp [completedOp] at hnone
  | next | take | wait | retry | spin | access | found | unlink | release => exact .rfl

/-- A step that completes a call inserts or deletes one element of its thread. -/
theorem inList_iff_of_some [setup.InRange] (hfits : Fits setup offset before)
    (hnext : listThrd setup offset shared before = some (shared', after))
    (hafter : after ≠ .corrupt)
    {op : Op α} (hop : completedOp setup ⟨offset, before, after⟩ = some op) :
    ∃ i, Owns setup offset i ∧
      (∀ e, Owns setup offset e → e ≠ i → (inList e after ↔ inList e before)) ∧
      (op = .insert (setup.globalList (hashOf setup i).toNat) (setup.elementPool i) ∧
          inList i after ∨
        op = .delete (setup.elementPool i) ∧ ¬ inList i after) := by
  cases (moves_of_listThrd hnext).resolve_left hafter with
  | @called phase i sublist control =>
      cases phase with
      | insertion =>
          obtain ⟨howns, rfl⟩ := owns_of_body (by simp) hfits
          cases hop
          refine ⟨i, howns, fun e _ hne => ?_, .inl ⟨rfl, ?_⟩⟩
          · simp only [inList, Phase.inList]
            omega
          · simp [inList, Phase.inList]
      | length | lookup => simp [completedOp] at hop
  | @deleted i sublist control =>
      obtain ⟨howns, rfl⟩ := owns_of_body (by simp) hfits
      cases hop
      refine ⟨i, howns, fun e _ hne => ?_, .inr ⟨rfl, ?_⟩⟩
      · simp only [inList, Phase.inList]
        omega
      · simp [inList, Phase.inList]
  | @leave phase => cases phase <;> simp [completedOp] at hop
  | _ => simp [completedOp] at hop

variable (setup) in
/-- The completed calls have put an element into its list exactly if its thread has. -/
def Recorded (events : List (Event (Fin setup.nThreads) (Local α)))
    (locals : Fin setup.nThreads → Local α) : Prop :=
  ∀ node list, owner (completedOps setup events) node = some list ↔
    ∃ e, Present setup locals e ∧ node = setup.elementPool e ∧
      list = setup.globalList (hashOf setup e).toNat

/-- Every step keeps this. -/
theorem Recorded.step [setup.InRange]
    {config config' : Config (Fin setup.nThreads) (Shared α) (Local α)}
    {events : List (Event (Fin setup.nThreads) (Local α))}
    {event : Event (Fin setup.nThreads) (Local α)} (h : Recorded setup events config.locals)
    (hinv : Invariant setup config) (hstep : Step (listThrd setup) config event config') :
    Recorded setup (events ++ [event]) config'.locals := by
  have hinv' := hinv.step hstep
  obtain ⟨hnext⟩ := hstep
  rename_i offset shared after
  have hfits : Fits setup offset after := by simpa using hinv'.fits offset
  have hafter : after ≠ .corrupt := fun heq => (heq ▸ hfits :)
  have hpresent : ∀ e, Owns setup offset e →
      (Present setup (Function.update config.locals offset after) e ↔ inList e after) :=
    fun e he => by rw [present_iff he, Function.update_self]
  intro node list
  cases hop : completedOp setup ⟨offset, config.locals offset, after⟩ with
  | none =>
      have hsame : ∀ e, Present setup (Function.update config.locals offset after) e ↔
          Present setup config.locals e := fun e => by
        by_cases he : Owns setup offset e
        · rw [hpresent e he, present_iff he,
            inList_iff_of_none (hinv.fits offset) hnext hafter hop he]
        · exact present_update_iff he
      have hevents : completedOps setup (events ++ [⟨offset, config.locals offset, after⟩]) =
          completedOps setup events := by simp [completedOps, hop]
      rw [hevents, h node list]
      exact exists_congr fun e => and_congr_left fun _ => (hsame e).symm
  | some op =>
      obtain ⟨i, hi, hothers, hcall⟩ := inList_iff_of_some (hinv.fits offset) hnext hafter hop
      have hevents : completedOps setup (events ++ [⟨offset, config.locals offset, after⟩]) =
          completedOps setup events ++ [op] := by simp [completedOps, hop]
      have hsame : ∀ e, e ≠ i → (Present setup (Function.update config.locals offset after) e ↔
          Present setup config.locals e) := fun e hne => by
        by_cases he : Owns setup offset e
        · rw [hpresent e he, present_iff he, hothers e he hne]
        · exact present_update_iff he
      have hrest : node ≠ setup.elementPool i →
          (owner (completedOps setup events) node = some list ↔
            ∃ e, Present setup (Function.update config.locals offset after) e ∧
              node = setup.elementPool e ∧ list = setup.globalList (hashOf setup e).toNat) := by
        intro hne
        rw [h node list]
        refine exists_congr fun e => and_congr_left fun ⟨hnode, _⟩ => (hsame e ?_).symm
        rintro rfl
        exact hne hnode
      have hown : ∀ e, Present setup (Function.update config.locals offset after) e →
          setup.elementPool i = setup.elementPool e → e = i := fun e ⟨other, hother, _⟩ heq =>
        (setup.elementPool_inj i hi.inPool e hother.inPool heq).symm
      rw [hevents, owner_concat]
      rcases hcall with ⟨rfl, hin⟩ | ⟨rfl, hnot⟩
      · by_cases hnode : node = setup.elementPool i
        · subst hnode
          rw [Op.apply, Function.update_self, Option.some.injEq]
          refine ⟨fun hlist => ⟨i, (hpresent i hi).2 hin, rfl, hlist.symm⟩, ?_⟩
          rintro ⟨e, he, heq, hlist⟩
          rw [hlist, hown e he heq]
        · rw [Op.apply, Function.update_of_ne hnode]
          exact hrest hnode
      · by_cases hnode : node = setup.elementPool i
        · subst hnode
          rw [Op.apply, Function.update_self]
          refine iff_of_false (Option.some_ne_none list).symm ?_
          rintro ⟨e, he, heq, -⟩
          rw [hown e he heq, hpresent i hi] at he
          exact hnot he
        · rw [Op.apply, Function.update_of_ne hnode]
          exact hrest hnode

/-- If the number of elements is an `int`, after any steps of any threads a list whose lock is free
is a ring of exactly the nodes that the completed calls have left in it, one after the other, in
descending order of their keys. -/
theorem lists_of_run (hint : setup.nThreads * setup.nIterations ≤ 2147483647)
    {shared : Shared α} {events : List (Event (Fin setup.nThreads) (Local α))}
    {final : Config (Fin setup.nThreads) (Shared α) (Local α)} (hstart : Start setup shared)
    (hrun : Run (listThrd setup) (initial setup shared) events final) {j : Nat}
    (hj : j < setup.nLists) (hfree : ¬ locked final.shared j) :
    ∃ contents, Ring final.shared.nodes (setup.globalList j :: contents) ∧ contents.Nodup ∧
      Descending setup.key contents ∧ ∀ node, node ∈ contents ↔
        owner (completedOps setup events) node = some (setup.globalList j) := by
  have : setup.InRange := ⟨hint⟩
  have hrecorded : Invariant setup final ∧ Recorded setup events final.locals :=
    hrun.invariant
      (fun events config => Invariant setup config ∧ Recorded setup events config.locals)
      ⟨.initial hstart, fun node list => iff_of_false nofun
        fun ⟨e, ⟨offset, howns, hin⟩, _⟩ => howns.not_lt_first hin⟩
      fun _ _ _ _ ⟨hinv, h⟩ hstep => ⟨hinv.step hstep, h.step hinv hstep⟩
  obtain ⟨hinv, hrecorded⟩ := hrecorded
  obtain ⟨contents, hlist⟩ := hinv.lists j hj
  refine ⟨contents, hlist.free fun offset hholds => hfree (hinv.exclusive.owned_locked _ _ hholds),
    hlist.nodup, hlist.descending, fun node => ?_⟩
  rw [hlist.member, hrecorded node]
  refine exists_congr fun e => and_congr_right fun ⟨offset, howns, _⟩ => ?_
  obtain ⟨i, hi, hhash⟩ := hash_of_range howns.inPool
  rw [hhash, Int.toNat_natCast]
  constructor
  · rintro ⟨hij, rfl⟩
    rw [Int.natCast_inj.1 hij]
    exact ⟨rfl, rfl⟩
  · rintro ⟨rfl, hlist⟩
    exact ⟨congrArg _ (setup.globalList_inj j hj i hi hlist).symm, rfl⟩

/-- When both threads of `pair` have inserted, both elements are in the list. -/
theorem pair_inserted : ∃ events final,
    Run (listThrd (pair .s)) (initial (pair .s) oneListShared) events final ∧
      ∃ contents, Ring final.shared.nodes (none :: contents) ∧
        ∀ node, node ∈ contents ↔ node ≠ none := by
  obtain ⟨⟨events, final⟩, hreplay, hops, hlock⟩ : ∃ result ∈
      replay (listThrd (pair .s)) pairInsertions (initial (pair .s) oneListShared),
      completedOps (pair .s) result.1 = [.insert none (some false), .insert none (some true)] ∧
        result.2.shared.locks (0 : Nat) = some 0 := by decide +kernel
  have hrun := Run.start.replay hreplay
  have hfree : ¬ locked final.shared (0 : Nat) := fun ⟨held, hheld, hne⟩ =>
    hne (Option.some.inj (hheld.symm.trans hlock))
  have hint : (pair .s).nThreads * (pair .s).nIterations ≤ 2147483647 := by decide
  obtain ⟨contents, hring, -, -, hcontents⟩ :=
    lists_of_run hint (twoElements_start ..) hrun Nat.one_pos hfree
  refine ⟨_, final, hrun, contents, hring, fun node => ?_⟩
  rw [hcontents node]
  show owner (completedOps (pair .s) events) node = _ ↔ _
  rw [hops]
  rcases node with _ | _ | _ <;> simp [owner, Op.apply, pair, twoElements]

end Coursework.ListThreads
