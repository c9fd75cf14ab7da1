import Coursework.Atomic.Fairness
import Coursework.ListThreads.Waiting
import Mathlib.Data.Prod.Lex

/-!
# Termination of the list threads

`rank` goes down with every step that is not one of waiting for a lock: first the program points
that the threads have ahead, then the memory accesses that are left in the list functions under
way. A thread that waits for a spin lock keeps it, so under a fair scheduler all threads return
(`list_threads_terminate`); with mutexes, which block, they return under every scheduler. No run is
stuck before all threads have returned.
Vocabulary and scope: `Coursework.ListThreads.Waiting`, `Coursework.Atomic.Fairness`.
-/

namespace Coursework.ListThreads

open Atomic Heap SortedList

variable {α : Type} {setup : Setup α}

/-! ## The rank -/

/-- The place of a program point in a round of a loop; the later, the lower. -/
def point : Local α → Nat
  | .test .insertion _ => 3
  | .test .length _ => 2
  | .test .lookup _ => 1
  | .acquire _ _ _ | .spin _ _ _ => 0
  | .call _ _ _ _ => 6
  | .deletion _ _ _ => 5
  | .release _ _ _ => 4
  | .returned | .corrupt => 0

variable (setup) in
/-- How many program points a thread has ahead at most: seven for every lock that it will take. -/
def ahead (offset : Nat) (state : Local α) : Nat :=
  7 * (2 * setup.nIterations + setup.nLists - taken setup offset state).toNat + point state

/-- The control point of the list function that a thread runs. -/
def control? : Local α → Option (Control α)
  | .call _ _ _ control | .deletion _ _ control => some control
  | _ => none

/-- The thread waits for a lock. -/
def Waits : Local α → Prop
  | .acquire _ _ _ | .spin _ _ _ => True
  | _ => False

/-- A thread that gets its lock does not wait any more. -/
theorem not_waits_enter {phase : Phase} {i sublist : Int} :
    ¬ Waits (setup.enter i sublist phase) := by
  unfold Setup.enter
  split <;> exact id

/-- A thread takes no more locks than its loops have rounds. -/
theorem taken_le [setup.InRange] {offset : Fin setup.nThreads} {state : Local α}
    (hfits : Fits setup offset state) :
    taken setup offset state ≤ 2 * setup.nIterations + setup.nLists := by
  have hrounds : ∀ phase, roundsBefore setup phase +
      (setup.bound offset phase - setup.first offset phase) ≤
        2 * setup.nIterations + setup.nLists := fun phase => by
    by_cases hphase : phase = .length
    · subst hphase
      simp only [roundsBefore, Setup.first, Setup.bound]
      omega
    · have hbound : setup.bound offset phase = _ := bound_eq_add hphase
      cases phase <;> simp only [roundsBefore] <;> omega
  cases state with
  | test phase i | acquire phase i | spin phase i | call phase i | release phase i =>
      have := hrounds phase
      simp only [Fits, taken] at hfits ⊢
      omega
  | deletion i =>
      have := hrounds .lookup
      simp only [Fits, taken] at hfits ⊢
      omega
  | returned => exact le_rfl
  | corrupt => exact hfits.elim

/-- A step that does not wait takes a thread to a later program point, or it is inside a list
function. -/
theorem Moves.ahead_lt [setup.InRange] {offset : Fin setup.nThreads} {before after : Local α}
    (h : Moves setup offset before after) (hbefore : Fits setup offset before)
    (hafter : Fits setup offset after) :
    ahead setup offset after < ahead setup offset before ∨
      ahead setup offset after = ahead setup offset before ∧
        (Waits before ∧ Waits after ∨ (control? before).isSome ∧ point after = point before) := by
  have htaken := h.taken_eq hbefore
  have hle := taken_le hafter
  cases h with
  | @leave phase i hge =>
      have hnone : holds (setup.following offset phase) = none := by cases phase <;> rfl
      have hpoint : point (setup.following offset phase) < point (.test phase i : Local α) := by
        cases phase <;> simp [Setup.following, point]
      simp only [acquires, hnone, Option.isSome_none, Bool.and_false, Bool.false_eq_true, if_false,
        add_zero] at htaken
      left
      rw [ahead, ahead, htaken]
      omega
  | next _ _ => exact .inl (by simp [ahead, taken, point]; cases ‹Phase› <;> simp)
  | take =>
      simp only [acquires, holds, Option.isNone_none, Option.isSome_some, Bool.and_self,
        if_true] at htaken
      left
      simp only [ahead, point]
      omega
  | wait | retry | spin => exact .inr ⟨rfl, .inl ⟨trivial, trivial⟩⟩
  | access | unlink => exact .inr ⟨rfl, .inr ⟨rfl, rfl⟩⟩
  | found | called | deleted => exact .inl (by simp [ahead, taken, point])
  | @release phase i sublist =>
      simp only [acquires, holds, Option.isNone_some, Bool.false_and, Bool.false_eq_true, if_false,
        add_zero] at htaken
      have hpoint : point (.test phase (i + 1) : Local α) < 4 := by cases phase <;> simp [point]
      left
      rw [ahead, ahead, htaken]
      simp only [point] at hpoint ⊢
      omega

/-! ## The steps -/

variable [DecidableEq α] {config config' : Config (Fin setup.nThreads) (Shared α) (Local α)}
  {offset : Fin setup.nThreads}

variable (setup) in
/-- The memory accesses left in the list function that a thread runs. -/
noncomputable def accessesLeft (nodes : Memory (Cell α) α) (state : Local α) : Nat :=
  match control? state with
  | some control => stepsLeft (program setup.key) nodes control
  | none => 0

variable (setup) in
/-- Goes down with every step except those of waiting. -/
noncomputable def rank (config : Config (Fin setup.nThreads) (Shared α) (Local α)) : ℕ ×ₗ ℕ :=
  toLex (∑ offset : Fin setup.nThreads, ahead setup offset (config.locals offset),
    ∑ offset : Fin setup.nThreads, accessesLeft setup config.shared.nodes (config.locals offset))

/-- A step leaves the memory as it is, and the list function if it is inside one, or it is the next
access of this list function. -/
theorem nodes_of_listThrd {shared shared' : Shared α} {before after : Local α}
    (hnext : listThrd setup offset shared before = some (shared', after)) :
    (shared'.nodes = shared.nodes ∧ ((control? before).isSome → point after < point before)) ∨
      ∃ control control', control? before = some control ∧ control? after = some control' ∧
        Atomic.next (program setup.key) (shared.nodes, control) =
          some (shared'.nodes, control') := by
  cases before with
  | call phase i sublist control =>
      simp only [listThrd, advance, Option.some.injEq] at hnext
      split at hnext
      · next hafter =>
          cases hnext
          refine .inl ⟨rfl, fun _ => ?_⟩
          unfold Setup.afterCall at hafter
          split at hafter <;> cases hafter
          · simp [point]
          · split <;> simp [point]
          · simp [point]
          · simp [point]
      · split at hnext <;> cases hnext
        · next hatomic => exact .inr ⟨control, _, rfl, rfl, hatomic⟩
        · exact .inl ⟨rfl, fun _ => Nat.zero_lt_succ _⟩
  | deletion i sublist control =>
      simp only [listThrd, advance, Option.some.injEq] at hnext
      split at hnext
      · next hafter =>
          cases hnext
          refine .inl ⟨rfl, fun _ => ?_⟩
          unfold afterDelete at hafter
          split at hafter <;> cases hafter
          split <;> simp [point]
      · split at hnext <;> cases hnext
        · next hatomic => exact .inr ⟨control, _, rfl, rfl, hatomic⟩
        · exact .inl ⟨rfl, fun _ => Nat.zero_lt_succ _⟩
  | test | acquire | spin | release =>
      simp only [listThrd] at hnext
      refine .inl ⟨?_, fun h => absurd h Bool.false_ne_true⟩
      repeat' split at hnext
      all_goals cases hnext
      all_goals rfl
  | returned | corrupt => simp [listThrd] at hnext

variable [setup.InRange]

/-- The list function that a thread runs completes, with the lock of its list taken. -/
theorem Invariant.completes (hinv : Invariant setup config) {control : Control α}
    (hcontrol : control? (config.locals offset) = some control) :
    ∃ j < setup.nLists, holds (config.locals offset) = some (j : Int) ∧ ∃ post,
      Completes (program setup.key) (region setup j) post config.shared.nodes control := by
  have hfits := hinv.fits offset
  cases hlocal : config.locals offset with
  | call phase i sublist _ =>
      rw [hlocal] at hfits hcontrol
      cases hcontrol
      obtain ⟨j, hj, rfl, -⟩ := hinv.sublist_eq phase hfits
      obtain ⟨contents, hlist⟩ := hinv.lists j hj
      have hduty := hlist.held offset (by rw [hlocal]; rfl)
      rw [hlocal] at hduty
      cases phase <;> exact ⟨j, hj, rfl, _, hduty⟩
  | deletion i sublist _ =>
      rw [hlocal] at hfits hcontrol
      cases hcontrol
      obtain ⟨j, hj, rfl, -⟩ := hinv.sublist_eq .lookup hfits
      obtain ⟨contents, hlist⟩ := hinv.lists j hj
      have hduty := hlist.held offset (by rw [hlocal]; rfl)
      rw [hlocal] at hduty
      exact ⟨j, hj, rfl, _, hduty⟩
  | test | acquire | spin | release | returned | corrupt => simp [hlocal, control?] at hcontrol

/-- The list functions of the other threads are not affected by a memory access under a lock. -/
theorem Invariant.accessesLeft_eq (hinv : Invariant setup config) {j : Nat} (hj : j < setup.nLists)
    (hholds : holds (config.locals offset) = some (j : Int)) {nodes : Memory (Cell α) α}
    (hframe : ∀ field ∉ region setup j, nodes field = config.shared.nodes field)
    {other : Fin setup.nThreads} (hne : other ≠ offset) :
    accessesLeft setup nodes (config.locals other) =
      accessesLeft setup config.shared.nodes (config.locals other) := by
  unfold accessesLeft
  cases hcontrol : control? (config.locals other) with
  | none => rfl
  | some control =>
      obtain ⟨i, hi, hother, post, hcompletes⟩ := hinv.completes hcontrol
      have hij : i ≠ j := by
        rintro rfl
        exact hinv.others hholds other hne hother
      exact (hcompletes.stepsLeft_congr fun field hfield =>
        (hframe field (region_disjoint hi hj hij hfield)).symm).symm

/-- Every step takes the rank down or is one of waiting. -/
theorem Invariant.rank_step (hinv : Invariant setup config)
    {event : Event (Fin setup.nThreads) (Local α)}
    (hstep : Step (listThrd setup) config event config') :
    rank setup config' < rank setup config ∨
      rank setup config' = rank setup config ∧ Waits event.before ∧ Waits event.after := by
  have hinv' := hinv.step hstep
  obtain ⟨hnext⟩ := hstep
  rename_i offset shared after
  have hafter : Fits setup offset after := by simpa using hinv'.fits offset
  have hmoves := (moves_of_listThrd hnext).resolve_left fun heq => by
    rw [heq] at hafter
    exact hafter
  rcases hmoves.ahead_lt (hinv.fits offset) hafter with hlt | ⟨heq, hstays⟩
  · exact .inl (Prod.Lex.toLex_lt_toLex.2 (.inl (sum_update_lt
      (fun t : Fin setup.nThreads => ahead setup t) (fun t => ahead setup t) hlt fun _ _ => rfl)))
  have hahead := sum_update_eq (fun t : Fin setup.nThreads => ahead setup t) heq
  rcases hstays with ⟨hwaits, hwaits'⟩ | ⟨hbefore, hpoint⟩
  · have hnone : ∀ {state : Local α}, Waits state → control? state = none := fun {state} h => by
      cases state <;> first | rfl | exact h.elim
    have hnodes : shared.nodes = config.shared.nodes := by
      rcases nodes_of_listThrd hnext with ⟨hnodes, -⟩ | ⟨_, _, hcontrol, -⟩
      · exact hnodes
      · simp [hnone hwaits] at hcontrol
    have haccesses := sum_update_eq
      (fun _ : Fin setup.nThreads => accessesLeft setup config.shared.nodes)
      (show accessesLeft setup config.shared.nodes after =
        accessesLeft setup config.shared.nodes (config.locals offset) by
          rw [accessesLeft, accessesLeft, hnone hwaits, hnone hwaits'])
    refine .inr ⟨?_, hwaits, hwaits'⟩
    rw [rank, rank, hnodes]
    exact congrArg toLex (Prod.ext hahead haccesses)
  · rcases nodes_of_listThrd hnext with ⟨-, hlt⟩ | ⟨control, control', hcontrol, hcontrol', hatomic⟩
    · exact absurd hpoint (hlt hbefore).ne
    obtain ⟨j, hj, hholds, post, hcompletes⟩ := hinv.completes hcontrol
    have hless : accessesLeft setup shared.nodes after <
        accessesLeft setup config.shared.nodes (config.locals offset) := by
      simp only [accessesLeft, hcontrol, hcontrol', hcompletes.stepsLeft_next hatomic]
      exact Nat.lt_succ_self _
    have haccesses := sum_update_lt
      (fun _ : Fin setup.nThreads => accessesLeft setup config.shared.nodes)
      (fun _ => accessesLeft setup shared.nodes) hless
      fun other hne => hinv.accessesLeft_eq hj hholds (hcompletes.next_eq hatomic).2 hne
    exact .inl (Prod.Lex.toLex_lt_toLex.2 (.inr ⟨hahead, haccesses⟩))

/-! ## Progress -/

/-- A thread that has not returned can move, or it waits for a mutex that is taken. -/
theorem Invariant.canMove_or (hinv : Invariant setup config)
    (hreturned : config.locals offset ≠ .returned) :
    CanMove (listThrd setup) config offset ∨ setup.syncType = .m ∧ Waits (config.locals offset) ∧
      ∃ sublist, locked config.shared sublist := by
  have hfits := hinv.fits offset
  unfold CanMove
  cases hlocal : config.locals offset with
  | test | call | deletion => exact .inl ⟨_, _, rfl⟩
  | acquire phase i sublist =>
      rw [hlocal] at hfits
      obtain ⟨-, -, -, held, hheld⟩ := hinv.sublist_eq phase hfits
      cases hsync : setup.syncType with
      | s => exact .inl ⟨_, _, by rw [listThrd, hheld, hsync]⟩
      | m =>
          by_cases hfree : held = 0
          · exact .inl ⟨_, _, by rw [listThrd, hheld, hsync]; exact if_pos hfree⟩
          · exact .inr ⟨rfl, trivial, sublist, held, hheld, hfree⟩
  | spin phase i sublist | release phase i sublist =>
      rw [hlocal] at hfits
      obtain ⟨-, -, -, held, hheld⟩ := hinv.sublist_eq phase hfits
      exact .inl ⟨_, _, by rw [listThrd, hheld]⟩
  | returned => exact (hreturned hlocal).elim
  | corrupt =>
      rw [hlocal] at hfits
      exact hfits.elim

/-- The holder of a lock does not wait and can move. -/
theorem Invariant.holder_moves (hinv : Invariant setup config) {sublist : Int}
    (hholds : holds (config.locals offset) = some sublist) :
    ¬ Waits (config.locals offset) ∧ CanMove (listThrd setup) config offset := by
  have hwaits : ¬ Waits (config.locals offset) := fun h => by
    cases hlocal : config.locals offset <;> rw [hlocal] at h hholds <;> first
      | exact h.elim
      | cases hholds
  refine ⟨hwaits, (hinv.canMove_or fun heq => ?_).resolve_right fun h => hwaits h.2.1⟩
  rw [heq] at hholds
  cases hholds

/-- A waiting thread that moves when its lock is free gets it, or it sees that it is free. -/
theorem Invariant.waits_ends (hinv : Invariant setup config)
    (hfree : ∀ sublist, ¬ locked config.shared sublist) (hwaits : Waits (config.locals offset))
    {shared : Shared α} {after : Local α}
    (hnext : listThrd setup offset config.shared (config.locals offset) = some (shared, after))
    (hwaits' : Waits after) : ∃ phase i sublist,
      config.locals offset = .spin phase i sublist ∧ after = .acquire phase i sublist := by
  have hheld : ∀ {sublist held}, config.shared.locks sublist = some held → held = 0 :=
    fun {sublist held} h => by_contra fun hne => hfree sublist ⟨held, h, hne⟩
  have hfits := hinv.fits offset
  cases hlocal : config.locals offset with
  | acquire phase i sublist =>
      exfalso
      rw [hlocal] at hfits hnext
      obtain ⟨-, -, -, held, hlock⟩ := hinv.sublist_eq phase hfits
      obtain rfl := hheld hlock
      cases hsync : setup.syncType <;>
        simp only [listThrd, hlock, hsync, if_true, Option.some.injEq, Prod.mk.injEq] at hnext <;>
        exact not_waits_enter (hnext.2 ▸ hwaits')
  | spin phase i sublist =>
      rw [hlocal] at hfits hnext
      obtain ⟨-, -, -, held, hlock⟩ := hinv.sublist_eq phase hfits
      obtain rfl := hheld hlock
      simp only [listThrd, hlock, if_true, Option.some.injEq, Prod.mk.injEq] at hnext
      exact ⟨phase, i, sublist, rfl, hnext.2.symm⟩
  | test | call | deletion | release | returned | corrupt => exact (hlocal ▸ hwaits :).elim

/-! ## Whole executions -/

omit [setup.InRange] in
/-- With mutexes no thread comes to spin, and a step from waiting is to the list function. -/
theorem not_waits_of_m {shared shared' : Shared α} {before after : Local α}
    (hm : setup.syncType = .m)
    (hnext : listThrd setup offset shared before = some (shared', after))
    (hspin : ∀ phase i sublist, before ≠ .spin phase i sublist) :
    ¬ (Waits before ∧ Waits after) ∧ ∀ phase i sublist, after ≠ .spin phase i sublist := by
  rcases moves_of_listThrd hnext with rfl | hmoves
  · exact ⟨fun h => h.2, by simp⟩
  cases hmoves with
  | @wait phase i sublist =>
      have henter : ¬ Waits (setup.enter i sublist phase) := not_waits_enter
      simp only [listThrd, hm] at hnext
      split at hnext
      · cases hnext
      · simp only [Option.ite_none_right_eq_some, Option.some.injEq, Prod.mk.injEq] at hnext
        rw [hnext.2.2] at henter
        exact (henter trivial).elim
      · contradiction
  | retry | spin => exact (hspin _ _ _ rfl).elim
  | @leave phase => exact ⟨fun h => h.1, by cases phase <;> simp [Setup.following]⟩
  | take => exact ⟨fun h => h.2, by simp⟩
  | next | access | found | called | unlink | deleted | release => exact ⟨fun h => h.1, by simp⟩

/-- The invariant holds all along an execution. -/
theorem invariant_of_execution {shared : Shared α} (hstart : Start setup shared)
    (e : Execution (listThrd setup) (initial setup shared)) (n : Nat) :
    Invariant setup (e.config n) :=
  invariant_of_run hstart (e.run n)

/-- From some time on the threads of an execution only wait. -/
theorem eventually_waits {shared : Shared α} (hstart : Start setup shared)
    (e : Execution (listThrd setup) (initial setup shared)) :
    ∃ n, ∀ m ≥ n, Waits (e.event m).before ∧ Waits (e.event m).after :=
  e.eventually_waits (rank setup) (fun event => Waits event.before ∧ Waits event.after)
    fun n => (invariant_of_execution hstart e n).rank_step (e.step n)

/-- With mutexes there is no execution without end. -/
theorem no_execution_of_m {shared : Shared α} (hstart : Start setup shared)
    (hm : setup.syncType = .m) : IsEmpty (Execution (listThrd setup) (initial setup shared)) := by
  refine ⟨fun e => ?_⟩
  have hspin : ∀ n offset phase i sublist, (e.config n).locals offset ≠ .spin phase i sublist :=
    fun n => (e.run n).invariant
      (fun _ config => ∀ offset phase i sublist, config.locals offset ≠ .spin phase i sublist)
      (fun _ _ _ _ => nofun) fun _ event middle final hmiddle hstep offset => by
        obtain ⟨hnext⟩ := hstep
        rename_i thread _ after
        rcases eq_or_ne offset thread with rfl | hne
        · simpa using (not_waits_of_m hm hnext (hmiddle offset)).2
        · simpa [Function.update_of_ne hne] using hmiddle offset
  obtain ⟨n, hwaits⟩ := eventually_waits hstart e
  obtain ⟨shared', hnext⟩ := e.next_event n
  have hbefore := hspin n (e.event n).thread
  rw [← (e.event_locals n).1] at hbefore
  exact (not_waits_of_m hm hnext hbefore).1 (hwaits n le_rfl)

/-- With spin locks there is none under a fair scheduler. -/
theorem not_fair_of_execution {shared : Shared α} (hstart : Start setup shared)
    (e : Execution (listThrd setup) (initial setup shared)) : ¬ e.Fair := by
  obtain ⟨n, hwaits⟩ := eventually_waits hstart e
  refine e.not_fair_of_waits Waits
    (fun state => ∃ phase i sublist, state = .acquire phase i sublist) hwaits
    (fun m => (invariant_of_execution hstart e m).exclusive)
    (fun m thread lock hholds => (invariant_of_execution hstart e m).holder_moves hholds)
    fun m thread hfree hwaiting => ?_
  have hinv := invariant_of_execution hstart e m
  refine ⟨(hinv.canMove_or fun heq => ?_).resolve_right fun h => ?_,
    fun shared after hnext hafter => ?_⟩
  · rw [heq] at hwaiting
    exact hwaiting
  · obtain ⟨sublist, hlocked⟩ := h.2.2
    exact hfree sublist hlocked
  · obtain ⟨phase, i, sublist, hspin, rfl⟩ := hinv.waits_ends hfree hwaiting hnext hafter
    rw [hspin]
    exact ⟨fun ⟨_, _, _, h⟩ => (nomatch h), phase, i, sublist, rfl⟩

omit [setup.InRange] in
/-- If the number of elements is an `int`, under a fair scheduler every execution of the threads
ends, and with mutexes under every scheduler. It can end only when all threads have returned, and
`main`'s check passes then. -/
theorem list_threads_terminate (hint : setup.nThreads * setup.nIterations ≤ 2147483647)
    {shared : Shared α} (hstart : Start setup shared) :
    (∀ e : Execution (listThrd setup) (initial setup shared), ¬ e.Fair) ∧
    (setup.syncType = .m → IsEmpty (Execution (listThrd setup) (initial setup shared))) ∧
    ∀ events final, Run (listThrd setup) (initial setup shared) events final →
      (∃ event config, Step (listThrd setup) final event config) ∨
        (∀ offset, final.locals offset = .returned) ∧ FinalCheck setup final.shared.nodes 0 0 := by
  have : setup.InRange := ⟨hint⟩
  refine ⟨not_fair_of_execution hstart, no_execution_of_m hstart, fun events final hrun => ?_⟩
  have hinv := invariant_of_run hstart hrun
  by_cases hreturned : ∀ offset, final.locals offset = .returned
  · exact .inr ⟨hreturned, final_check_of_empty (fun j hj => hinv.empty hreturned hj) 0⟩
  · obtain ⟨offset, hoffset⟩ := not_forall.1 hreturned
    have hmoves : ∃ thread, CanMove (listThrd setup) final thread := by
      rcases hinv.canMove_or hoffset with hmove | ⟨-, -, sublist, hlocked⟩
      · exact ⟨offset, hmove⟩
      · obtain ⟨holder, hholds⟩ := hinv.exclusive.locked_owned sublist hlocked
        exact ⟨holder, (hinv.holder_moves hholds).2⟩
    obtain ⟨thread, _, _, hnext⟩ := hmoves
    exact .inl ⟨_, _, .move hnext⟩

/-- The threads of `pair` under a scheduler, with spin locks and with mutexes. -/
theorem pair_ends :
    (∀ e : Execution (listThrd (pair .s)) (initial (pair .s) oneListShared), ¬ e.Fair) ∧
    IsEmpty (Execution (listThrd (pair .m)) (initial (pair .m) oneListShared)) ∧
    ∀ syncType events final,
      Run (listThrd (pair syncType)) (initial (pair syncType) oneListShared) events final →
        (∃ event config, Step (listThrd (pair syncType)) final event config) ∨
          (∀ offset, final.locals offset = .returned) ∧
            FinalCheck (pair syncType) final.shared.nodes 0 0 := by
  have hint : ∀ syncType, (pair syncType).nThreads * (pair syncType).nIterations ≤ 2147483647 := by
    simp [pair, twoElements]
  refine ⟨(list_threads_terminate (hint .s) (twoElements_start ..)).1,
    (list_threads_terminate (hint .m) (twoElements_start ..)).2.1 rfl, fun syncType => ?_⟩
  exact (list_threads_terminate (hint syncType) (twoElements_start ..)).2.2

end Coursework.ListThreads
