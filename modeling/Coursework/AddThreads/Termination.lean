import Coursework.AddThreads.Safety
import Coursework.Atomic.Fairness
import Mathlib.Data.Prod.Lex

/-!
# Termination of the counter exerciser

`rank` goes down with every step that is not one of waiting for the spin lock: first the number of
sums that the threads have yet to store, then the way of every thread to its next store. A
compare-and-swap that has read an old value is further from its store than one that reads the
counter now; a value gets old only when another thread stores. So the synchronisation by
compare-and-swap and by the mutex ends under every scheduler and the spin lock under a fair one
(`add_threads_terminate`), and no run is stuck before all threads have returned.
Vocabulary and scope: `Coursework.AddThreads.Safety`, `Coursework.Atomic.Fairness`.
-/

namespace Coursework.AddThreads

open Atomic

/-! ## The rank -/

/-- The number of iterations that a thread has not completed. -/
def roundsLeft (options : Options) : Phase → Int → Int
  | .increment, i => options.iterations - i + options.iterations
  | .decrement, i => options.iterations - i

/-- The call has stored its sum. -/
def Control.stored : Control → Bool
  | .unlock _ | .returned => true
  | _ => false

/-- The number of sums that a thread has yet to store. -/
def storesLeft (options : Options) : Local → Nat
  | .test phase i => (roundsLeft options phase i).toNat
  | .call phase i control => (roundsLeft options phase i - if control.stored then 1 else 0).toNat
  | .returned => 0

/-- The way from a program point of `add` to its next store when the counter has this value. -/
def Control.distance (current : Int) : Control → Nat
  | .switch => 12
  | .casYield oldVal _ => if oldVal = current then 8 else 11
  | .compareAndSwap oldVal _ => if oldVal = current then 7 else 10
  | .mutexLock | .testAndSet | .spin | .casRead => 9
  | .read => 8
  | .yield _ => 7
  | .write _ => 6
  | .unlock _ => 16
  | .returned => 15

/-- The way of a thread to its next store. -/
def distance (current : Int) : Local → Nat
  | .test .increment _ => 14
  | .test .decrement _ => 13
  | .call _ _ control => control.distance current
  | .returned => 0

/-- The thread waits for the spin lock. -/
def Waits : Local → Prop
  | .call _ _ .testAndSet | .call _ _ .spin => True
  | _ => False

/-- What a step does to the rank of its thread, in the order of the rank. -/
inductive Sinks (options : Options) (shared shared' : Memory Loc Int) (current : Int)
    (before after : Local) : Prop where
  | store : storesLeft options after < storesLeft options before →
      Sinks options shared shared' current before after
  | approach : storesLeft options after = storesLeft options before →
      shared' .counter = shared .counter → distance current after < distance current before →
      Sinks options shared shared' current before after
  | wait : storesLeft options after = storesLeft options before →
      shared' .counter = shared .counter → distance current after = distance current before →
      Waits before → Waits after → Sinks options shared shared' current before after

variable {options : Options} {events : List (Event (Fin options.nThreads) Local)}
  {config config' : Config (Fin options.nThreads) (Memory Loc Int) Local}
  {thread : Fin options.nThreads}

/-- A call has one store less to come when it has stored its sum. -/
theorem storesLeft_stored {phase : Phase} {i : Int} {control control' : Control}
    (hlow : 0 ≤ i) (hi : i < options.nIterations) (hcontrol : control.stored = false)
    (hcontrol' : control'.stored = true) :
    storesLeft options (.call phase i control') < storesLeft options (.call phase i control) := by
  have hle : options.nIterations ≤ options.iterations := le_max_left _ _
  simp only [storesLeft, hcontrol, hcontrol', Bool.false_eq_true, if_false, if_true]
  cases phase <;> simp only [roundsLeft] <;> omega

/-- It has as many to come as before otherwise. -/
theorem storesLeft_eq {phase : Phase} {i : Int} {control control' : Control}
    (h : control'.stored = control.stored) :
    storesLeft options (.call phase i control') = storesLeft options (.call phase i control) := by
  simp only [storesLeft, h]

/-- A step inside a call of `add`. -/
theorem sinks_call {phase : Phase} {i current : Int} {control control' : Control}
    {shared shared' : Memory Loc Int} (hlow : 0 ≤ i) (hi : i < options.nIterations)
    (hcurrent : shared .counter = some current)
    (hvalid : control.Valid options.syncType phase.value current)
    (hnext : next (add options .counter phase.value) (shared, control) = some (shared', control')) :
    Sinks options shared shared' current (.call phase i control) (.call phase i control') := by
  have hheld : ∀ {loc effect}, add options .counter phase.value control = .access loc effect →
      ∃ value, shared loc = some value := by
    intro loc effect haction
    cases hvalue : shared loc with
    | some value => exact ⟨value, rfl⟩
    | none => simp [next, haction, hvalue] at hnext
  cases control with
  | switch =>
      simp only [next, add, Option.some.injEq, Prod.mk.injEq] at hnext
      obtain ⟨rfl, rfl⟩ := hnext
      split <;> exact .approach (storesLeft_eq rfl) rfl (by simp [distance, Control.distance])
  | mutexLock =>
      obtain ⟨held, hheld⟩ := hheld rfl
      by_cases hfree : held = 0
      · cases (next_access rfl hheld (by rw [if_pos hfree])).symm.trans hnext
        exact .approach (storesLeft_eq rfl) (by simp) (by simp [distance, Control.distance])
      · simp [next, add, hheld, hfree] at hnext
  | testAndSet =>
      obtain ⟨held, hheld⟩ := hheld rfl
      cases (next_access rfl hheld rfl).symm.trans hnext
      split
      · exact .approach (storesLeft_eq rfl) (by simp) (by simp [distance, Control.distance])
      · exact .wait (storesLeft_eq rfl) (by simp) rfl trivial trivial
  | spin =>
      obtain ⟨held, hheld⟩ := hheld rfl
      cases (next_access rfl hheld rfl).symm.trans hnext
      dsimp only
      split <;> exact .wait (storesLeft_eq rfl) (by simp) rfl trivial trivial
  | read =>
      cases (next_access rfl hcurrent rfl).symm.trans hnext
      split <;> exact .approach (storesLeft_eq rfl) (by simp [hcurrent])
        (by simp [distance, Control.distance])
  | yield sum =>
      simp only [next, add, Option.some.injEq, Prod.mk.injEq] at hnext
      obtain ⟨rfl, rfl⟩ := hnext
      exact .approach (storesLeft_eq rfl) rfl (by simp [distance, Control.distance])
  | write sum =>
      cases (next_access rfl hcurrent rfl).symm.trans hnext
      refine .store (storesLeft_stored hlow hi rfl ?_)
      split <;> rfl
  | unlock lock =>
      obtain ⟨held, hheld⟩ := hheld rfl
      cases (next_access rfl hheld rfl).symm.trans hnext
      have hne : lock ≠ .counter := lock_ne_counter hvalid
      exact .approach (storesLeft_eq rfl) (Function.update_of_ne hne.symm _ _)
        (by simp [distance, Control.distance])
  | casRead =>
      cases (next_access rfl hcurrent rfl).symm.trans hnext
      split <;> exact .approach (storesLeft_eq rfl) (by simp [hcurrent])
        (by simp [distance, Control.distance])
  | casYield oldVal sum =>
      simp only [next, add, Option.some.injEq, Prod.mk.injEq] at hnext
      obtain ⟨rfl, rfl⟩ := hnext
      refine .approach (storesLeft_eq rfl) rfl ?_
      simp only [distance, Control.distance]
      split <;> omega
  | compareAndSwap oldVal sum =>
      by_cases hequal : current = oldVal
      · cases (next_access rfl hcurrent (by rw [if_pos hequal])).symm.trans hnext
        exact .store (storesLeft_stored hlow hi rfl rfl)
      · -- the value is old, and the next one will be read now
        cases (next_access rfl hcurrent (by rw [if_neg hequal])).symm.trans hnext
        refine .approach (storesLeft_eq rfl) (by simp [hcurrent]) ?_
        simp [distance, Control.distance, Ne.symm hequal]
  | returned => cases hnext

/-- Every step of a thread lowers its rank or is one of waiting. -/
theorem sinks_of_addThrd {current : Int} {shared shared' : Memory Loc Int} {before after : Local}
    (hcurrent : shared .counter = some current) (hvalid : Valid options current before)
    (hnext : addThrd options thread shared before = some (shared', after)) :
    Sinks options shared shared' current before after := by
  cases before with
  | test phase i =>
      obtain ⟨hlow, hhigh⟩ := hvalid
      simp only [addThrd, Option.some.injEq, Prod.mk.injEq] at hnext
      obtain ⟨rfl, rfl⟩ := hnext
      split
      · refine .approach ?_ rfl ?_
        · simp [storesLeft, Control.stored]
        · cases phase <;> simp [distance, Control.distance]
      · next hge =>
          have hi : i = options.iterations := by
            simp only [Options.iterations] at hhigh ⊢
            omega
          cases phase with
          | increment =>
              refine .approach ?_ rfl (by simp [distance, Phase.following])
              simp [storesLeft, roundsLeft, Phase.following, hi]
          | decrement =>
              refine .approach ?_ rfl (by simp [distance, Phase.following])
              simp [storesLeft, roundsLeft, Phase.following, hi]
  | call phase i control =>
      obtain ⟨hlow, hi, hcontrol⟩ := hvalid
      by_cases hreturned : control = .returned
      · subst hreturned
        cases hnext
        refine .approach ?_ rfl ?_
        · have hsucc : roundsLeft options phase (i + 1) = roundsLeft options phase i - 1 := by
            cases phase <;> simp only [roundsLeft] <;> omega
          simp [storesLeft, Control.stored, hsucc]
        · cases phase <;> simp [distance, Control.distance]
      · obtain ⟨control', rfl, hcall⟩ := Invariant.call_of_addThrd hreturned hnext
        exact sinks_call hlow hi hcurrent hcontrol hcall
  | returned => simp [addThrd] at hnext

/-- The value of the counter in a state of the invariant. -/
def counterOf (shared : Memory Loc Int) : Int :=
  (shared .counter).getD 0

variable (options) in
/-- Goes down with every step except those of waiting. -/
def rank (config : Config (Fin options.nThreads) (Memory Loc Int) Local) : ℕ ×ₗ ℕ :=
  toLex (∑ thread, storesLeft options (config.locals thread),
    ∑ thread, distance (counterOf config.shared) (config.locals thread))

/-- Every step takes the rank down or is one of waiting. -/
theorem Invariant.rank_step (hinv : Invariant options events config)
    {event : Event (Fin options.nThreads) Local}
    (hstep : Step (addThrd options) config event config') :
    rank options config' < rank options config ∨
      rank options config' = rank options config ∧ Waits event.before ∧ Waits event.after := by
  obtain ⟨current, hcurrent, -, hall⟩ := hinv.counter
  obtain ⟨hnext⟩ := hstep
  rename_i thread shared after
  have hcounter : ∀ {memory : Memory Loc Int}, memory .counter = config.shared .counter →
      counterOf memory = current := fun h => by rw [counterOf, h, hcurrent]; rfl
  simp only [rank]
  rcases sinks_of_addThrd hcurrent (hall thread) hnext with
    hlt | ⟨heq, hsame, hlt⟩ | ⟨heq, hsame, hequal, hwaits, hwaits'⟩
  · exact .inl (Prod.Lex.toLex_lt_toLex.2 (.inl (sum_update_lt
      (fun _ : Fin options.nThreads => storesLeft options) (fun _ => storesLeft options) hlt
      fun _ _ => rfl)))
  · have hstores := sum_update_eq (fun _ : Fin options.nThreads => storesLeft options) heq
    have hdistance := sum_update_lt (fun _ : Fin options.nThreads => distance current)
      (fun _ => distance current) hlt fun _ _ => rfl
    rw [hcounter rfl, hcounter hsame]
    exact .inl (Prod.Lex.toLex_lt_toLex.2 (.inr ⟨hstores, hdistance⟩))
  · have hstores := sum_update_eq (fun _ : Fin options.nThreads => storesLeft options) heq
    have hdistance := sum_update_eq (fun _ : Fin options.nThreads => distance current) hequal
    rw [hcounter rfl, hcounter hsame]
    exact .inr ⟨congrArg toLex (Prod.ext hstores hdistance), hwaits, hwaits'⟩

/-! ## Progress -/

/-- A thread that has not returned can move, or it waits for the mutex while it is taken. -/
theorem Invariant.canMove_or (hinv : Invariant options events config)
    (hreturned : config.locals thread ≠ .returned) :
    CanMove (addThrd options) config thread ∨
      (∃ phase i, config.locals thread = .call phase i .mutexLock) ∧
        locked config.shared .mymutex := by
  unfold CanMove
  cases hlocal : config.locals thread with
  | test phase i => exact .inl ⟨_, _, rfl⟩
  | returned => exact (hreturned hlocal).elim
  | call phase i control =>
      have hmove : ∀ {shared control'}, control ≠ .returned →
          next (add options .counter phase.value) (config.shared, control) =
            some (shared, control') → ∃ shared after,
          addThrd options thread config.shared (.call phase i control) = some (shared, after) := by
        intro shared control' hcontrol hnext
        refine ⟨shared, .call phase i control', ?_⟩
        cases control <;> simp_all [addThrd]
      have haccess : ∀ {loc effect}, control ≠ .returned →
          add options .counter phase.value control = .access loc effect →
          (∀ value, ∃ result, effect value = some result) → ∃ shared after,
          addThrd options thread config.shared (.call phase i control) = some (shared, after) := by
        intro loc effect hcontrol haction htotal
        obtain ⟨value, hvalue⟩ := Option.isSome_iff_exists.1 (hinv.allocated loc)
        obtain ⟨result, hresult⟩ := htotal value
        exact hmove hcontrol (next_access haction hvalue hresult)
      cases control with
      | mutexLock =>
          obtain ⟨held, hheld⟩ := Option.isSome_iff_exists.1 (hinv.allocated .mymutex)
          by_cases hfree : held = 0
          · exact .inl (hmove (by simp) (next_access rfl hheld (if_pos hfree)))
          · exact .inr ⟨⟨phase, i, rfl⟩, by simp, held, hheld, hfree⟩
      | switch | yield | casYield => exact .inl (hmove (by simp) (next_pass rfl))
      | testAndSet | spin | read | write | unlock | casRead | compareAndSwap =>
          exact .inl (haccess (by simp) rfl fun _ => ⟨_, rfl⟩)
      | returned => exact .inl ⟨_, _, rfl⟩

/-- The holder of a lock does not wait and can move. -/
theorem Invariant.holder_moves (hinv : Invariant options events config) {lock : Loc}
    (hholds : holds options.syncType (config.locals thread) = some lock) :
    ¬ Waits (config.locals thread) ∧ CanMove (addThrd options) config thread := by
  have hcases : ∃ phase i control, config.locals thread = .call phase i control ∧
      control.holds options.syncType = some lock := by
    cases hlocal : config.locals thread with
    | call phase i control => exact ⟨phase, i, control, rfl, by rwa [hlocal] at hholds⟩
    | test | returned => rw [hlocal] at hholds; cases hholds
  obtain ⟨phase, i, control, hlocal, hcontrol⟩ := hcases
  refine ⟨fun h => ?_, (hinv.canMove_or fun heq => ?_).resolve_right fun h => ?_⟩
  · rw [hlocal] at h
    cases control with
    | testAndSet | spin => cases hcontrol
    | _ => exact h
  · rw [hlocal] at heq
    cases heq
  · obtain ⟨⟨_, _, hmutex⟩, -⟩ := h
    cases hlocal.symm.trans hmutex
    cases hcontrol

/-- A thread that moves from waiting to waiting when the lock is free has seen that it is. -/
theorem Invariant.waits_ends (hinv : Invariant options events config)
    (hfree : ∀ lock, ¬ locked config.shared lock) (hwaits : Waits (config.locals thread))
    {shared : Memory Loc Int} {after : Local}
    (hnext : addThrd options thread config.shared (config.locals thread) = some (shared, after))
    (hwaits' : Waits after) : ∃ phase i,
      config.locals thread = .call phase i .spin ∧ after = .call phase i .testAndSet := by
  obtain ⟨held, hheld⟩ := Option.isSome_iff_exists.1 (hinv.allocated .lockS)
  obtain rfl : held = 0 := by_contra fun hne => hfree .lockS ⟨nofun, held, hheld, hne⟩
  cases hlocal : config.locals thread with
  | call phase i control =>
      rw [hlocal] at hwaits hnext
      cases control with
      | testAndSet =>
          obtain ⟨control', rfl, hcall⟩ := Invariant.call_of_addThrd (by simp) hnext
          cases (next_access rfl hheld rfl).symm.trans hcall
          exact hwaits'.elim
      | spin =>
          obtain ⟨control', rfl, hcall⟩ := Invariant.call_of_addThrd (by simp) hnext
          cases (next_access rfl hheld rfl).symm.trans hcall
          exact ⟨phase, i, rfl, rfl⟩
      | _ => exact hwaits.elim
  | test | returned => exact (hlocal ▸ hwaits :).elim

/-- Threads wait only if the program synchronises with the spin lock. -/
theorem Invariant.sync_of_waits (hinv : Invariant options events config)
    (hwaits : Waits (config.locals thread)) : options.syncType = .s := by
  obtain ⟨current, -, -, hall⟩ := hinv.counter
  have hvalid := hall thread
  cases hlocal : config.locals thread with
  | call phase i control =>
      rw [hlocal] at hwaits hvalid
      cases control with
      | testAndSet | spin => exact hvalid.2.2
      | _ => exact hwaits.elim
  | test | returned => exact (hlocal ▸ hwaits :).elim

/-! ## Whole executions -/

section Executions

variable (hsync : options.syncType ≠ .n) (e : Execution (addThrd options) (initial options))
include hsync e

/-- The invariant holds all along an execution. -/
theorem invariant_of_execution (n : Nat) :
    Invariant options ((List.range n).map e.event) (e.config n) :=
  invariant_of_run hsync (e.run n)

/-- From some time on the threads of an execution only wait. -/
theorem eventually_waits : ∃ n, ∀ m ≥ n, Waits (e.event m).before ∧ Waits (e.event m).after :=
  e.eventually_waits (rank options) (fun event => Waits event.before ∧ Waits event.after)
    fun n => (invariant_of_execution hsync e n).rank_step (e.step n)

/-- Only with the spin lock there is an execution without end. -/
theorem sync_of_execution : options.syncType = .s := by
  obtain ⟨n, hwaits⟩ := eventually_waits hsync e
  have hbefore := (hwaits n le_rfl).1
  rw [(e.event_locals n).1] at hbefore
  exact (invariant_of_execution hsync e n).sync_of_waits hbefore

/-- There is none under a fair scheduler. -/
theorem not_fair_of_execution : ¬ e.Fair := by
  obtain ⟨n, hwaits⟩ := eventually_waits hsync e
  refine e.not_fair_of_waits Waits (fun state => ∃ phase i, state = .call phase i .testAndSet)
    hwaits (fun m => (invariant_of_execution hsync e m).exclusive)
    (fun m thread lock hholds => (invariant_of_execution hsync e m).holder_moves hholds)
    fun m thread hfree hwaiting => ?_
  have hinv := invariant_of_execution hsync e m
  refine ⟨(hinv.canMove_or fun heq => ?_).resolve_right fun h => hfree _ h.2,
    fun shared after hnext hafter => ?_⟩
  · rw [heq] at hwaiting
    exact hwaiting
  · obtain ⟨phase, i, hspin, rfl⟩ := hinv.waits_ends hfree hwaiting hnext hafter
    rw [hspin]
    exact ⟨fun ⟨_, _, h⟩ => (nomatch h), phase, i, rfl⟩

end Executions

/-- With compare-and-swap and with the mutex every execution ends, and with the spin lock every
execution under a fair scheduler. It can end only when all threads have returned, and the counter is
0 then. -/
theorem add_threads_terminate (hsync : options.syncType ≠ .n) :
    (∀ e : Execution (addThrd options) (initial options), ¬ e.Fair) ∧
    (options.syncType ≠ .s → IsEmpty (Execution (addThrd options) (initial options))) ∧
    ∀ events config, Run (addThrd options) (initial options) events config →
      (∃ event config', Step (addThrd options) config event config') ∨
        (∀ thread, config.locals thread = .returned) ∧ config.shared .counter = some 0 := by
  refine ⟨not_fair_of_execution hsync, fun hs => ⟨fun e => hs (sync_of_execution hsync e)⟩,
    fun events config hrun => ?_⟩
  have hinv := invariant_of_run hsync hrun
  by_cases hreturned : ∀ thread, config.locals thread = .returned
  · right
    refine ⟨hreturned, ?_⟩
    rw [hinv.counter_eq fun thread => by simp [hreturned thread, InsideAdd], hinv.history]
    simp [hreturned, progress]
  · obtain ⟨thread, hthread⟩ := not_forall.1 hreturned
    have hmoves : ∃ thread, CanMove (addThrd options) config thread := by
      rcases hinv.canMove_or hthread with hmove | ⟨-, hlocked⟩
      · exact ⟨thread, hmove⟩
      · obtain ⟨holder, hholds⟩ := hinv.exclusive.locked_owned .mymutex hlocked
        exact ⟨holder, (hinv.holder_moves hholds).2⟩
    obtain ⟨thread, _, _, hnext⟩ := hmoves
    exact .inl ⟨_, _, .move hnext⟩

/-- The two threads of `pair` cannot run for ever. -/
theorem pair_terminates : IsEmpty (Execution (addThrd pair) (initial pair)) :=
  (add_threads_terminate (by simp [pair])).2.1 (by simp [pair])

end Coursework.AddThreads
