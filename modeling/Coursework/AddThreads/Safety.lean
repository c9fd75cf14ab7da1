import Coursework.AddThreads.Program
import Mathlib.Algebra.Order.BigOperators.Group.Finset
import Mathlib.Algebra.Order.Ring.Int
import Mathlib.Tactic.Ring

/-!
# No addition is lost or applied twice

Every thread has a contribution to the counter: what its completed calls have added, and the value
of a call that has stored its sum but not returned. The counter is the sum of all contributions
in every reachable state (`Invariant`). Inside a critical section a thread knows the
counter because it holds the lock; a compare-and-swap knows it because it has just compared, so it
does not matter whether the counter changed in between.
Vocabulary and scope: `Coursework.AddThreads.Program`.
-/

namespace Coursework.AddThreads

open Atomic

/-! ## What a local state says -/

/-- The lock that `sync_type` uses. -/
def SyncType.lock : SyncType → Option Loc
  | .m => some .mymutex
  | .s => some .lockS
  | .n | .c => none

/-- The lock a program point of `add` holds. -/
def Control.holds (syncType : SyncType) : Control → Option Loc
  | .read | .yield _ | .write _ => syncType.lock
  | .unlock lock => some lock
  | _ => none

/-- The lock a thread holds. -/
def holds (syncType : SyncType) : Local → Option Loc
  | .call _ _ control => control.holds syncType
  | _ => none

/-- The lock is taken. -/
def locked (shared : Memory Loc Int) (lock : Loc) : Prop :=
  lock ≠ .counter ∧ ∃ held, shared lock = some held ∧ held ≠ 0

/-- The number of iterations of a loop of `add_thrd`. -/
def Options.iterations (options : Options) : Int :=
  max options.nIterations 0

/-- What the completed calls of a thread have added. -/
def progress (options : Options) : Local → Int
  | .test .increment i | .call .increment i _ => i
  | .test .decrement i | .call .decrement i _ => options.iterations - i
  | .returned => 0

/-- What a call that has stored its sum and not yet returned has added. -/
def pending : Local → Int
  | .call phase _ (.unlock _) | .call phase _ .returned => phase.value
  | _ => 0

/-- What a thread has added to the counter. -/
def contribution (options : Options) (state : Local) : Int :=
  progress options state + pending state

/-- A program point of `add(pointer, value)` belongs to the synchronisation in use, and the sum it
is about to store is right: for the lock holder it is the counter's successor, for
compare-and-swap the successor of the value compared with. -/
def Control.Valid (syncType : SyncType) (value current : Int) : Control → Prop
  | .switch | .returned => True
  | .mutexLock => syncType = .m
  | .testAndSet | .spin => syncType = .s
  | .read => syncType.lock.isSome
  | .yield sum | .write sum => syncType.lock.isSome ∧ sum = current + value
  | .unlock lock => syncType.lock = some lock
  | .casRead => syncType = .c
  | .casYield oldVal sum | .compareAndSwap oldVal sum => syncType = .c ∧ sum = oldVal + value

/-- The loop index is in range and the program point is valid. -/
def Valid (options : Options) (current : Int) : Local → Prop
  | .test _ i => 0 ≤ i ∧ i ≤ options.iterations
  | .call phase i control => 0 ≤ i ∧ i < options.nIterations ∧
      control.Valid options.syncType phase.value current
  | .returned => True

/-- The invariant of every reachable state. -/
structure Invariant (options : Options) (events : List (Event (Fin options.nThreads) Local))
    (config : Config (Fin options.nThreads) (Memory Loc Int) Local) : Prop where
  allocated : ∀ loc, (config.shared loc).isSome
  exclusive : Exclusive (holds options.syncType) locked config
  counter : ∃ current, config.shared .counter = some current ∧
    current = ∑ thread, contribution options (config.locals thread) ∧
    ∀ thread, Valid options current (config.locals thread)
  history : (completed events).sum = ∑ thread, progress options (config.locals thread)

/-- Without its lock a thread says nothing about the counter. -/
theorem Valid.of_free {options : Options} {current other : Int} {state : Local}
    (h : Valid options current state) (hfree : holds options.syncType state = none) :
    Valid options other state := by
  cases state with
  | test phase i => exact h
  | returned => exact h
  | call phase i control =>
      refine ⟨h.1, h.2.1, ?_⟩
      cases control with
      | yield sum | write sum =>
          obtain ⟨hlock, -⟩ := h.2.2
          rw [show options.syncType.lock = none from hfree] at hlock
          simp at hlock
      | _ => exact h.2.2

/-! ## The lock holder -/

/-- A lock is not the counter. -/
theorem lock_ne_counter {syncType : SyncType} {lock : Loc} (h : syncType.lock = some lock) :
    lock ≠ .counter := by
  cases syncType <;> cases h <;> decide

/-- A valid program point holds no lock but the one in use. -/
theorem Control.Valid.holds_eq {syncType : SyncType} {value current : Int} {control : Control}
    {lock : Loc} (h : control.Valid syncType value current)
    (hholds : control.holds syncType = some lock) : syncType.lock = some lock := by
  cases control with
  | read | yield sum | write sum => exact hholds
  | unlock other => exact hholds ▸ h
  | _ => cases hholds

variable {options : Options} {events : List (Event (Fin options.nThreads) Local)}
  {config : Config (Fin options.nThreads) (Memory Loc Int) Local} {thread : Fin options.nThreads}

namespace Invariant

/-- While one thread is in its critical section, no other is. -/
theorem others_free (hinv : Invariant options events config) {lock : Loc}
    (hholds : holds options.syncType (config.locals thread) = some lock)
    (hlock : options.syncType.lock = some lock) :
    ∀ other ≠ thread, holds options.syncType (config.locals other) = none := by
  intro other hne
  cases hother : holds options.syncType (config.locals other) with
  | none => rfl
  | some lock' =>
      obtain ⟨current, -, -, hvalid⟩ := hinv.counter
      have hsame : options.syncType.lock = some lock' := by
        have hcontrol := hvalid other
        cases hlocal : config.locals other with
        | call phase i control =>
            rw [hlocal] at hcontrol hother
            exact hcontrol.2.2.holds_eq hother
        | _ => simp [hlocal, holds] at hother
      cases hlock.symm.trans hsame
      exact (hne (hinv.exclusive.unique other thread lock hother hholds)).elim

/-- What every step has to respect: the counter moves with the mover's contribution, nobody else
relies on the old counter, and the completed calls move with the mover's progress. -/
theorem move (hinv : Invariant options events config) {shared : Memory Loc Int} {after : Local}
    {current current' : Int} (hcurrent : config.shared .counter = some current)
    (hcurrent' : shared .counter = some current') (halloc : ∀ loc, (shared loc).isSome)
    (hlock : LockStep (holds options.syncType) locked config.shared (config.locals thread)
      shared after)
    (hcredit : current' + contribution options (config.locals thread) =
      current + contribution options after)
    (hvalid : Valid options current' after)
    (hothers : current' = current ∨
      ∀ other ≠ thread, holds options.syncType (config.locals other) = none)
    (hcompleted : (completed [⟨thread, config.locals thread, after⟩]).sum =
      progress options after - progress options (config.locals thread)) :
    Invariant options (events ++ [⟨thread, config.locals thread, after⟩])
      ⟨shared, Function.update config.locals thread after⟩ := by
  obtain ⟨value, hvalue, hsum, hall⟩ := hinv.counter
  cases hcurrent.symm.trans hvalue
  refine ⟨halloc, hinv.exclusive.step hlock, ⟨current', hcurrent', ?_, fun other => ?_⟩, ?_⟩
  · rw [sum_update fun _ => contribution options, ← hsum]
    omega
  · rcases eq_or_ne other thread with rfl | hne
    · simpa using hvalid
    · simp only [Function.update_of_ne hne]
      rcases hothers with rfl | hfree
      · exact hall other
      · exact (hall other).of_free (hfree other hne)
  · rw [completed, List.filterMap_append, List.sum_append, sum_update fun _ => progress options,
      ← hcompleted]
    congr 1
    exact hinv.history

/-- A step inside a call of `add`. -/
theorem call_move (hinv : Invariant options events config) {phase : Phase} {i : Int}
    {control control' : Control} {shared : Memory Loc Int}
    (hlocal : config.locals thread = .call phase i control) (hcontrol : control ≠ .returned)
    {current current' : Int} (hcurrent : config.shared .counter = some current)
    (hcurrent' : shared .counter = some current') (halloc : ∀ loc, (shared loc).isSome)
    (hlock : LockStep (holds options.syncType) locked config.shared (.call phase i control)
      shared (.call phase i control'))
    (hpending : current' + pending (.call phase i control) =
      current + pending (.call phase i control'))
    (hvalid : control'.Valid options.syncType phase.value current')
    (hothers : current' = current ∨
      ∀ other ≠ thread, holds options.syncType (config.locals other) = none) :
    Invariant options (events ++ [⟨thread, config.locals thread, .call phase i control'⟩])
      ⟨shared, Function.update config.locals thread (.call phase i control')⟩ := by
  have hprogress : progress options (.call phase i control') =
      progress options (.call phase i control) := by
    cases phase <;> rfl
  obtain ⟨_, -, -, hall⟩ := hinv.counter
  have hbefore := hall thread
  rw [hlocal] at hbefore
  refine hinv.move hcurrent hcurrent' halloc (by rwa [hlocal]) ?_ ⟨hbefore.1, hbefore.2.1, hvalid⟩
    hothers ?_
  · rw [hlocal, contribution, contribution, hprogress]
    omega
  · rw [hlocal, hprogress, sub_self]
    cases control with
    | returned => exact absurd rfl hcontrol
    | _ => rfl

/-- A step inside a call of `add` that changes nothing but the program point. -/
theorem call_pass (hinv : Invariant options events config) {phase : Phase} {i : Int}
    {control control' : Control} (hlocal : config.locals thread = .call phase i control)
    (hcontrol : control ≠ .returned)
    (hholds : control'.holds options.syncType = control.holds options.syncType)
    (hpending : pending (.call phase i control') = pending (.call phase i control))
    (hvalid : ∀ current, config.shared .counter = some current →
      control.Valid options.syncType phase.value current →
      control'.Valid options.syncType phase.value current) :
    Invariant options (events ++ [⟨thread, config.locals thread, .call phase i control'⟩])
      ⟨config.shared, Function.update config.locals thread (.call phase i control')⟩ := by
  obtain ⟨current, hcurrent, -, hall⟩ := hinv.counter
  have hbefore := hall thread
  rw [hlocal] at hbefore
  exact hinv.call_move hlocal hcontrol hcurrent hcurrent hinv.allocated
    (.keep hholds fun _ => .rfl) (by rw [hpending]) (hvalid current hcurrent hbefore.2.2) (.inl rfl)

/-! ## The steps -/

/-- Overwriting a variable keeps all variables allocated. -/
theorem update_allocated (hinv : Invariant options events config) (loc : Loc) (value : Int)
    (other : Loc) : (Function.update config.shared loc (some value) other).isSome := by
  rcases eq_or_ne other loc with rfl | hne
  · simp
  · simpa [Function.update_of_ne hne] using hinv.allocated other

/-- Which locks are taken after a store. -/
theorem locked_update {shared : Memory Loc Int} {loc : Loc} {value : Int} (other : Loc) :
    locked (Function.update shared loc (some value)) other ↔
      if other = loc then loc ≠ .counter ∧ value ≠ 0 else locked shared other := by
  rcases eq_or_ne other loc with rfl | hne
  · simp [locked]
  · simp [locked, hne]

/-- Taking a free lock, by `pthread_mutex_lock` or by test-and-set. -/
theorem step_take (hinv : Invariant options events config) {phase : Phase} {i : Int}
    {control : Control} {lock : Loc} (hlocal : config.locals thread = .call phase i control)
    (hcontrol : control ≠ .returned) (hfree : control.holds options.syncType = none)
    (hpending : pending (.call phase i control) = 0) (hlock : options.syncType.lock = some lock)
    (hheld : config.shared lock = some 0) :
    Invariant options (events ++ [⟨thread, config.locals thread, .call phase i .read⟩])
      ⟨Function.update config.shared lock (some 1),
        Function.update config.locals thread (.call phase i .read)⟩ := by
  obtain ⟨current, hcurrent, -, -⟩ := hinv.counter
  have hne := lock_ne_counter hlock
  refine hinv.call_move hlocal hcontrol hcurrent
    (by rwa [Function.update_of_ne hne.symm]) (hinv.update_allocated lock 1)
    (.acquire lock hfree ?_ hlock fun other => ?_) (by rw [hpending]; rfl)
    (Option.isSome_iff_exists.2 ⟨lock, hlock⟩) (.inl rfl)
  · intro ⟨_, held, hsome, htaken⟩
    rw [hheld] at hsome
    exact htaken (Option.some.inj hsome).symm
  · rw [locked_update]
    by_cases heq : other = lock <;> simp [heq, hne]

/-- A test-and-set of a taken lock. -/
theorem step_retry (hinv : Invariant options events config) {phase : Phase} {i held : Int}
    (hlocal : config.locals thread = .call phase i .testAndSet)
    (hheld : config.shared .lockS = some held) (htaken : held ≠ 0) :
    Invariant options (events ++ [⟨thread, config.locals thread, .call phase i .spin⟩])
      ⟨Function.update config.shared .lockS (some 1),
        Function.update config.locals thread (.call phase i .spin)⟩ := by
  obtain ⟨current, hcurrent, -, hall⟩ := hinv.counter
  have hbefore := hall thread
  rw [hlocal] at hbefore
  refine hinv.call_move hlocal (by simp) hcurrent (by simpa using hcurrent)
    (hinv.update_allocated .lockS 1) (.keep rfl fun other => ?_) rfl hbefore.2.2 (.inl rfl)
  rw [locked_update]
  by_cases heq : other = .lockS
  · subst heq
    simp [locked, hheld, htaken]
  · simp [heq]

/-- The store of the sum in a critical section. -/
theorem step_write (hinv : Invariant options events config) {phase : Phase} {i sum : Int}
    {lock : Loc} (hlocal : config.locals thread = .call phase i (.write sum))
    (hlock : options.syncType.lock = some lock) :
    Invariant options (events ++ [⟨thread, config.locals thread, .call phase i (.unlock lock)⟩])
      ⟨Function.update config.shared .counter (some sum),
        Function.update config.locals thread (.call phase i (.unlock lock))⟩ := by
  obtain ⟨current, hcurrent, -, hall⟩ := hinv.counter
  have hbefore := hall thread
  rw [hlocal] at hbefore
  obtain ⟨-, hsum⟩ := hbefore.2.2
  have hholds : holds options.syncType (config.locals thread) = some lock := by
    rw [hlocal]
    exact hlock
  refine hinv.call_move hlocal (by simp) hcurrent
    (show _ = some sum from Function.update_self ..) (hinv.update_allocated .counter sum)
    (.keep hlock.symm fun other => ?_) ?_ hlock (.inr (hinv.others_free hholds hlock))
  · rw [locked_update]
    by_cases heq : other = .counter
    · simp [heq, locked]
    · simp [heq]
  · simp only [pending]
    omega

/-- The release of the lock. -/
theorem step_unlock (hinv : Invariant options events config) {phase : Phase} {i : Int}
    {lock : Loc} (hlocal : config.locals thread = .call phase i (.unlock lock)) :
    Invariant options (events ++ [⟨thread, config.locals thread, .call phase i .returned⟩])
      ⟨Function.update config.shared lock (some 0),
        Function.update config.locals thread (.call phase i .returned)⟩ := by
  obtain ⟨current, hcurrent, -, hall⟩ := hinv.counter
  have hbefore := hall thread
  rw [hlocal] at hbefore
  have hlock : options.syncType.lock = some lock := hbefore.2.2
  have hne := lock_ne_counter hlock
  refine hinv.call_move hlocal (by simp) hcurrent (by rwa [Function.update_of_ne hne.symm])
    (hinv.update_allocated lock 0) (.release lock rfl rfl fun other => ?_) rfl trivial (.inl rfl)
  rw [locked_update]
  by_cases heq : other = lock <;> simp [heq]

/-- A successful compare-and-swap. Whatever happened to the counter since it was read, it now has
the value read. -/
theorem step_swap (hinv : Invariant options events config) {phase : Phase} {i oldVal sum : Int}
    (hlocal : config.locals thread = .call phase i (.compareAndSwap oldVal sum))
    (hcurrent : config.shared .counter = some oldVal) :
    Invariant options (events ++ [⟨thread, config.locals thread, .call phase i .returned⟩])
      ⟨Function.update config.shared .counter (some sum),
        Function.update config.locals thread (.call phase i .returned)⟩ := by
  obtain ⟨_, -, -, hall⟩ := hinv.counter
  have hbefore := hall thread
  rw [hlocal] at hbefore
  obtain ⟨hsync, hsum⟩ := hbefore.2.2
  have hfree : ∀ other, holds options.syncType (config.locals other) = none := by
    intro other
    cases hother : config.locals other with
    | call phase i control =>
        have hvalid := hall other
        rw [hother] at hvalid
        cases hholds : control.holds options.syncType with
        | none => exact hholds
        | some lock =>
            have hlock := hvalid.2.2.holds_eq hholds
            rw [hsync] at hlock
            cases hlock
    | _ => rfl
  refine hinv.call_move hlocal (by simp) hcurrent
    (show _ = some sum from Function.update_self ..) (hinv.update_allocated .counter sum)
    (.keep rfl fun other => ?_) ?_ trivial (.inr fun other _ => hfree other)
  · rw [locked_update]
    by_cases heq : other = .counter
    · simp [heq, locked]
    · simp [heq]
  · simp only [pending]
    omega

/-- The guard of a loop. -/
theorem step_test (hinv : Invariant options events config) {phase : Phase} {i : Int}
    (hlocal : config.locals thread = .test phase i) {after : Local}
    (hafter : after = if i < options.nIterations then .call phase i .switch
      else phase.following) :
    Invariant options (events ++ [⟨thread, config.locals thread, after⟩])
      ⟨config.shared, Function.update config.locals thread after⟩ := by
  obtain ⟨current, hcurrent, -, hall⟩ := hinv.counter
  have hbefore := hall thread
  rw [hlocal] at hbefore
  obtain ⟨hlow, hhigh⟩ := hbefore
  have hstep : holds options.syncType after = none ∧ pending after = 0 ∧
      progress options after = progress options (.test phase i) ∧ Valid options current after := by
    rw [hafter]
    split
    · next hlt => cases phase <;> exact ⟨rfl, rfl, rfl, hlow, hlt, trivial⟩
    · next hge =>
        have hi : i = options.iterations := by
          simp only [Options.iterations] at hhigh ⊢
          omega
        have hpos : 0 ≤ options.iterations := le_max_right _ _
        cases phase with
        | increment => exact ⟨rfl, rfl, by simp [progress, Phase.following, hi], le_rfl, hpos⟩
        | decrement => exact ⟨rfl, rfl, by simp [progress, Phase.following, hi], trivial⟩
  obtain ⟨hholds, hpending, hprogress, hvalid⟩ := hstep
  refine hinv.move hcurrent hcurrent hinv.allocated
    (.keep (by rw [hholds, hlocal]; rfl) fun _ => .rfl) ?_ hvalid (.inl rfl) ?_
  · rw [hlocal, contribution, contribution, hprogress, hpending]
    rfl
  · rw [hlocal, hprogress, sub_self]
    rfl

/-- The return of a call: its pending value becomes progress. -/
theorem step_return (hinv : Invariant options events config) {phase : Phase} {i : Int}
    (hlocal : config.locals thread = .call phase i .returned) :
    Invariant options (events ++ [⟨thread, config.locals thread, .test phase (i + 1)⟩])
      ⟨config.shared, Function.update config.locals thread (.test phase (i + 1))⟩ := by
  obtain ⟨current, hcurrent, -, hall⟩ := hinv.counter
  have hbefore := hall thread
  rw [hlocal] at hbefore
  obtain ⟨hlow, hlt, -⟩ := hbefore
  have hprogress : progress options (.test phase (i + 1)) =
      progress options (.call phase i .returned) + phase.value := by
    cases phase with
    | increment => rfl
    | decrement =>
        simp only [progress, Phase.value]
        omega
  refine hinv.move hcurrent hcurrent hinv.allocated
    (.keep (by rw [hlocal]; rfl) fun _ => .rfl) ?_ ⟨by omega, ?_⟩ (.inl rfl) ?_
  · rw [hlocal, contribution, contribution, hprogress]
    simp [pending]
  · exact le_max_of_le_left hlt
  · rw [hlocal, hprogress]
    simp [completed, completedValue]

/-- Every step inside a call of `add` keeps the invariant. -/
theorem step_call (hinv : Invariant options events config) (hsync : options.syncType ≠ .n)
    {phase : Phase} {i : Int} {control control' : Control} {shared : Memory Loc Int}
    (hlocal : config.locals thread = .call phase i control)
    (hnext : next (add options .counter phase.value) (config.shared, control) =
      some (shared, control')) :
    Invariant options (events ++ [⟨thread, config.locals thread, .call phase i control'⟩])
      ⟨shared, Function.update config.locals thread (.call phase i control')⟩ := by
  obtain ⟨current, hcurrent, -, hall⟩ := hinv.counter
  have hvalid := hall thread
  rw [hlocal] at hvalid
  replace hvalid := hvalid.2.2
  have hread : ∀ loc value, config.shared loc = some value →
      Function.update config.shared loc (some value) = config.shared :=
    fun loc value hvalue => by rw [← hvalue, Function.update_eq_self]
  cases control with
  | switch =>
      simp only [next, add, Option.some.injEq, Prod.mk.injEq] at hnext
      obtain ⟨rfl, rfl⟩ := hnext
      cases hmode : options.syncType with
      | n => exact absurd hmode hsync
      | c | m | s =>
          exact hinv.call_pass hlocal (by simp) (by simp [Control.holds]) rfl fun _ _ _ => hmode
  | mutexLock =>
      obtain ⟨held, hheld⟩ := Option.isSome_iff_exists.1 (hinv.allocated .mymutex)
      have hlock : options.syncType.lock = some .mymutex := by
        rw [show options.syncType = .m from hvalid]
        rfl
      by_cases hfree : held = 0
      · subst hfree
        cases (next_access rfl hheld rfl).symm.trans hnext
        exact hinv.step_take hlocal (by simp) rfl rfl hlock hheld
      · -- the mutex is taken, so there is no step
        simp [next, add, hheld, hfree] at hnext
  | testAndSet =>
      obtain ⟨held, hheld⟩ := Option.isSome_iff_exists.1 (hinv.allocated .lockS)
      have hlock : options.syncType.lock = some .lockS := by
        rw [show options.syncType = .s from hvalid]
        rfl
      cases (next_access rfl hheld rfl).symm.trans hnext
      -- the exchange stores 1 either way, and the old value decides
      split
      · next hfree => exact hinv.step_take hlocal (by simp) rfl rfl hlock (hfree ▸ hheld)
      · next htaken => exact hinv.step_retry hlocal hheld htaken
  | spin =>
      obtain ⟨held, hheld⟩ := Option.isSome_iff_exists.1 (hinv.allocated .lockS)
      cases (next_access rfl hheld rfl).symm.trans hnext
      rw [hread _ _ hheld]
      dsimp only
      split <;> exact hinv.call_pass hlocal (by simp) rfl rfl fun _ _ _ => hvalid
  | read =>
      cases (next_access rfl hcurrent rfl).symm.trans hnext
      rw [hread _ _ hcurrent]
      split <;>
        refine hinv.call_pass hlocal (by simp) rfl rfl fun value hvalue _ => ⟨hvalid, ?_⟩ <;>
        rw [Option.some.inj (hcurrent.symm.trans hvalue)]
  | yield sum =>
      simp only [next, add, Option.some.injEq, Prod.mk.injEq] at hnext
      obtain ⟨rfl, rfl⟩ := hnext
      exact hinv.call_pass hlocal (by simp) rfl rfl fun _ _ hsum => hsum
  | write sum =>
      cases (next_access rfl hcurrent rfl).symm.trans hnext
      -- a plain store happens under a lock only
      cases hmode : options.syncType with
      | n | c => exact absurd hvalid.1 (by simp [hmode, SyncType.lock])
      | m | s => exact hinv.step_write hlocal (by rw [hmode]; rfl)
  | unlock lock =>
      obtain ⟨held, hheld⟩ := Option.isSome_iff_exists.1 (hinv.allocated lock)
      cases (next_access rfl hheld rfl).symm.trans hnext
      exact hinv.step_unlock hlocal
  | casRead =>
      cases (next_access rfl hcurrent rfl).symm.trans hnext
      rw [hread _ _ hcurrent]
      split <;> exact hinv.call_pass hlocal (by simp) rfl rfl fun _ _ _ => ⟨hvalid, rfl⟩
  | casYield oldVal sum =>
      simp only [next, add, Option.some.injEq, Prod.mk.injEq] at hnext
      obtain ⟨rfl, rfl⟩ := hnext
      exact hinv.call_pass hlocal (by simp) rfl rfl fun _ _ hsum => hsum
  | compareAndSwap oldVal sum =>
      -- the counter may have changed since it was read
      by_cases hequal : current = oldVal
      · subst hequal
        cases (next_access rfl hcurrent (by rw [if_pos rfl])).symm.trans hnext
        exact hinv.step_swap hlocal hcurrent
      · cases (next_access rfl hcurrent (by rw [if_neg hequal])).symm.trans hnext
        rw [hread _ _ hcurrent]
        exact hinv.call_pass hlocal (by simp) rfl rfl fun _ _ _ => hvalid.1
  | returned => cases hnext

/-- A step of a thread inside a call is a step of `add`. -/
theorem call_of_addThrd {phase : Phase} {i : Int} {control : Control} (h : control ≠ .returned)
    {shared shared' : Memory Loc Int} {after : Local}
    (hnext : addThrd options thread shared (.call phase i control) = some (shared', after)) :
    ∃ control', after = .call phase i control' ∧
      next (add options .counter phase.value) (shared, control) = some (shared', control') := by
  have hcall : addThrd options thread shared (.call phase i control) =
      (next (add options .counter phase.value) (shared, control)).map
        fun result => (result.1, .call phase i result.2) := by
    cases control with
    | returned => exact absurd rfl h
    | _ =>
        simp only [addThrd]
        split <;> simp_all
  rw [hcall, Option.map_eq_some_iff] at hnext
  obtain ⟨⟨result, control'⟩, hresult, heq⟩ := hnext
  cases heq
  exact ⟨control', rfl, hresult⟩

/-- Every step of every thread keeps the invariant. -/
theorem step (hinv : Invariant options events config) (hsync : options.syncType ≠ .n)
    {event : Event (Fin options.nThreads) Local}
    {config' : Config (Fin options.nThreads) (Memory Loc Int) Local}
    (hstep : Step (addThrd options) config event config') :
    Invariant options (events ++ [event]) config' := by
  obtain ⟨hnext⟩ := hstep
  rename_i thread shared after
  cases hlocal : config.locals thread with
  | test phase i =>
      simp only [hlocal, addThrd, Option.some.injEq, Prod.mk.injEq] at hnext
      obtain ⟨rfl, hafter⟩ := hnext
      rw [← hlocal]
      exact hinv.step_test hlocal hafter.symm
  | call phase i control =>
      rw [hlocal] at hnext
      rw [← hlocal]
      by_cases hcontrol : control = .returned
      · subst hcontrol
        cases hnext
        exact hinv.step_return hlocal
      · obtain ⟨control', rfl, hcall⟩ := call_of_addThrd hcontrol hnext
        exact hinv.step_call hsync hlocal hcall
  | returned => simp [hlocal, addThrd] at hnext

/-- The invariant holds when `main` has created the threads. -/
theorem initial (options : Options) : Invariant options [] (initial options) := by
  refine ⟨fun _ => rfl, .of_free (fun _ => rfl) ?_, ⟨0, rfl, ?_, fun _ => ?_⟩, ?_⟩
  · intro lock ⟨_, held, hheld, hne⟩
    exact hne (Option.some.inj hheld).symm
  · simp [AddThreads.initial, contribution, progress, pending]
  · exact ⟨le_rfl, le_max_right _ _⟩
  · simp [AddThreads.initial, completed, progress]

/-- When no thread is inside `add`, the counter is the sum of the values of the completed calls. -/
theorem counter_eq (hinv : Invariant options events config)
    (houtside : ∀ thread, ¬ InsideAdd (config.locals thread)) :
    config.shared .counter = some (completed events).sum := by
  obtain ⟨current, hcurrent, hsum, -⟩ := hinv.counter
  have hpending : ∀ thread, pending (config.locals thread) = 0 := by
    intro thread
    have hlocal := houtside thread
    cases hstate : config.locals thread with
    | call phase i control => exact (hlocal (hstate ▸ trivial)).elim
    | _ => rfl
  rw [hcurrent, hsum, hinv.history]
  simp [contribution, hpending]

/-- A thread contributes between 0 and its number of iterations. -/
theorem contribution_range (hinv : Invariant options events config)
    (thread : Fin options.nThreads) :
    0 ≤ contribution options (config.locals thread) ∧
      contribution options (config.locals thread) ≤ options.iterations := by
  obtain ⟨current, -, -, hall⟩ := hinv.counter
  have hvalid := hall thread
  have hpos : 0 ≤ options.iterations := le_max_right _ _
  have hle : options.nIterations ≤ options.iterations := le_max_left _ _
  cases hlocal : config.locals thread with
  | test phase i =>
      rw [hlocal] at hvalid
      obtain ⟨hlow, hhigh⟩ := hvalid
      cases phase <;> simp only [contribution, progress, pending] <;> omega
  | call phase i control =>
      rw [hlocal] at hvalid
      obtain ⟨hlow, hhigh, -⟩ := hvalid
      have hcases : pending (.call phase i control) = 0 ∨
          pending (.call phase i control) = phase.value := by
        cases control <;> simp [pending]
      rw [contribution]
      cases phase <;> rcases hcases with hpending | hpending <;> rw [hpending] <;>
        simp only [progress, Phase.value] <;> omega
  | returned => exact ⟨le_rfl, hpos⟩

end Invariant

/-! ## Whole runs -/

/-- Every reachable state satisfies the invariant. -/
theorem invariant_of_run (hsync : options.syncType ≠ .n)
    (h : Run (addThrd options) (initial options) events config) :
    Invariant options events config :=
  h.invariant (Invariant options) (.initial options) fun _ _ _ _ hinv hstep => hinv.step hsync hstep

/-- The counter never leaves the range between 0 and the number of additions of 1. -/
theorem counter_range (hsync : options.syncType ≠ .n)
    (h : Run (addThrd options) (initial options) events config) :
    ∃ current, config.shared .counter = some current ∧ 0 ≤ current ∧
      current ≤ options.nThreads * options.iterations := by
  have hinv := invariant_of_run hsync h
  obtain ⟨current, hcurrent, rfl, -⟩ := hinv.counter
  refine ⟨_, hcurrent, ?_, ?_⟩
  · exact Finset.sum_nonneg fun thread _ => (hinv.contribution_range thread).1
  · have hsum := Finset.sum_le_card_nsmul Finset.univ _ _ fun thread _ =>
      (hinv.contribution_range thread).2
    simpa using hsum

/-- With any synchronisation, whenever no thread is inside `add` the counter is the sum of the
values of all completed calls, and when all threads have returned it is 0. -/
theorem counter_of_run (hsync : options.syncType ≠ .n)
    (h : Run (addThrd options) (initial options) events config) :
    ((∀ thread, ¬ InsideAdd (config.locals thread)) →
      config.shared .counter = some (completed events).sum) ∧
    ((∀ thread, config.locals thread = .returned) → config.shared .counter = some 0) := by
  have hinv := invariant_of_run hsync h
  refine ⟨hinv.counter_eq, fun hreturned => ?_⟩
  rw [hinv.counter_eq fun thread => by simp [hreturned thread, InsideAdd], hinv.history]
  simp [hreturned, progress]

/-! ## Two threads and compare-and-swap -/

/-- Two threads that add once each, without yields. -/
def pair : Options where
  nThreads := 2
  nIterations := 1
  optYield := false
  syncType := .c

/-- The first thread reads the counter, the second runs to its end and brings the counter back to
0, and only then does the first compare and swap. -/
def pairSchedule : List (Fin 2) :=
  List.replicate 3 0 ++ List.replicate 12 1 ++ List.replicate 9 0

/-- Both threads return, and the counter is 0. -/
theorem pair_counter : ∃ events final, Run (addThrd pair) (initial pair) events final ∧
    (∀ thread, final.locals thread = .returned) ∧ final.shared .counter = some 0 := by
  obtain ⟨⟨events, final⟩, hreplay, hfirst, hsecond⟩ : ∃ result,
      replay (addThrd pair) pairSchedule (initial pair) = some result ∧
        result.2.locals (0 : Fin 2) = .returned ∧ result.2.locals (1 : Fin 2) = .returned :=
    ⟨_, rfl, rfl, rfl⟩
  have hrun := Run.start.replay hreplay
  have hall : ∀ thread : Fin 2, final.locals thread = .returned
    | 0 => hfirst
    | 1 => hsecond
  exact ⟨_, final, hrun, hall, (counter_of_run (by simp [pair]) hrun).2 hall⟩

end Coursework.AddThreads
