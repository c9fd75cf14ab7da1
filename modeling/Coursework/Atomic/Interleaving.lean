import Mathlib.Algebra.BigOperators.Group.Finset.Piecewise
import Mathlib.Tactic.Abel

/-!
# Interleavings of threads

Threads with private local states take turns on one shared state; a run is any sequence
of single thread steps, so memory is sequentially consistent and the scheduler is
arbitrary. A run records the local transition of every step, from which histories such as
completed calls can be read back. `Run.invariant` is the induction rule. `Exclusive`
is the mutual exclusion invariant of a family of locks; it is preserved by every step
that acquires, releases or keeps (`Exclusive.step`).
-/

namespace Coursework.Atomic

/-- The shared state together with the local state of every thread. -/
structure Config (Thread Shared Local : Type) where
  shared : Shared
  locals : Thread → Local

/-- One recorded step: which thread moved, and its local state before and after. -/
structure Event (Thread Local : Type) where
  thread : Thread
  before : Local
  after : Local

variable {Thread Shared Local : Type} [DecidableEq Thread]

/-- Thread `thread` takes one of its own transitions. -/
inductive Step (next : Thread → Shared → Local → Option (Shared × Local)) :
    Config Thread Shared Local → Event Thread Local → Config Thread Shared Local → Prop where
  | move {config : Config Thread Shared Local} {thread : Thread} {shared : Shared}
      {after : Local} :
      next thread config.shared (config.locals thread) = some (shared, after) →
      Step next config ⟨thread, config.locals thread, after⟩
        ⟨shared, Function.update config.locals thread after⟩

/-- Finitely many steps of any threads in any order, with the recorded events. -/
inductive Run (next : Thread → Shared → Local → Option (Shared × Local))
    (initial : Config Thread Shared Local) :
    List (Event Thread Local) → Config Thread Shared Local → Prop where
  | start : Run next initial [] initial
  | snoc {events event middle final} : Run next initial events middle →
      Step next middle event final → Run next initial (events ++ [event]) final

/-- A property that holds initially and that every step preserves holds after every run. -/
theorem Run.invariant {next : Thread → Shared → Local → Option (Shared × Local)}
    {initial final : Config Thread Shared Local} {events : List (Event Thread Local)}
    (h : Run next initial events final)
    (inv : List (Event Thread Local) → Config Thread Shared Local → Prop)
    (hinit : inv [] initial)
    (hstep : ∀ events event middle final, inv events middle → Step next middle event final →
      inv (events ++ [event]) final) : inv events final := by
  induction h with
  | start => exact hinit
  | snoc _ hlast ih => exact hstep _ _ _ _ ih hlast

/-- Let the threads move in the order of a schedule; a thread that cannot move ends the run. -/
def replay (next : Thread → Shared → Local → Option (Shared × Local)) :
    List Thread → Config Thread Shared Local →
      Option (List (Event Thread Local) × Config Thread Shared Local)
  | [], config => some ([], config)
  | thread :: schedule, config => do
      let (shared, after) ← next thread config.shared (config.locals thread)
      let (events, final) ←
        replay next schedule ⟨shared, Function.update config.locals thread after⟩
      pure (⟨thread, config.locals thread, after⟩ :: events, final)

/-- A run continued by a replayed schedule is a run. -/
theorem Run.replay {next : Thread → Shared → Local → Option (Shared × Local)}
    {initial middle final : Config Thread Shared Local} {events later : List (Event Thread Local)}
    {schedule : List Thread} (h : Run next initial events middle)
    (hreplay : Atomic.replay next schedule middle = some (later, final)) :
    Run next initial (events ++ later) final := by
  induction schedule generalizing events middle later with
  | nil =>
      cases hreplay
      simpa using h
  | cons thread schedule ih =>
      simp only [Atomic.replay, bind, Option.bind_eq_some_iff, pure, Option.some.injEq] at hreplay
      obtain ⟨⟨shared, after⟩, hnext, ⟨rest, last⟩, hrest, heq⟩ := hreplay
      cases heq
      simpa using ih (h.snoc (.move hnext)) hrest

/-- What a step of one thread changes in a sum over all threads. -/
theorem sum_update [Fintype Thread] {M : Type} [AddCommGroup M] (credit : Thread → Local → M)
    (locals : Thread → Local) (thread : Thread) (after : Local) :
    ∑ t, credit t (Function.update locals thread after t) =
      ∑ t, credit t (locals t) + (credit thread after - credit thread (locals thread)) := by
  have hupdate : ∀ t, credit t (Function.update locals thread after t) =
      Function.update (fun t => credit t (locals t)) thread (credit thread after) t :=
    Function.apply_update credit locals thread after
  rw [Finset.sum_congr rfl fun t _ => hupdate t,
    Finset.sum_update_of_mem (Finset.mem_univ thread),
    ← Finset.add_sum_erase _ _ (Finset.mem_univ thread), Finset.sdiff_singleton_eq_erase]
  abel

/-- If every step changes the credit of its thread by a charge, a run changes the sum of all credits
by the sum of its charges. The steps may rely on an invariant. -/
theorem Run.sum_credit [Fintype Thread] {M : Type} [AddCommGroup M]
    {next : Thread → Shared → Local → Option (Shared × Local)}
    {initial final : Config Thread Shared Local} {events : List (Event Thread Local)}
    (h : Run next initial events final) (inv : Config Thread Shared Local → Prop)
    (credit : Thread → Local → M) (charge : Event Thread Local → M) (hinit : inv initial)
    (hstep : ∀ config event config', inv config → Step next config event config' →
      inv config' ∧
        credit event.thread event.after = credit event.thread event.before + charge event) :
    inv final ∧ ∑ t, credit t (final.locals t) =
      ∑ t, credit t (initial.locals t) + (events.map charge).sum := by
  induction h with
  | start => exact ⟨hinit, by simp⟩
  | snoc _ hlast ih =>
      obtain ⟨hinv, hsum⟩ := ih
      obtain ⟨hinv', hcredit⟩ := hstep _ _ _ hinv hlast
      refine ⟨hinv', ?_⟩
      cases hlast with
      | move hnext =>
          rw [sum_update credit, hsum, List.map_append, List.sum_append, List.map_singleton,
            List.sum_singleton, hcredit]
          abel

/-! ## Locks -/

variable {Lock : Type}

/-- Every lock is taken exactly when some thread is inside its critical section, and then by one
thread only. `holds` reads the lock off a local state. -/
structure Exclusive (holds : Local → Option Lock) (locked : Shared → Lock → Prop)
    (config : Config Thread Shared Local) : Prop where
  owned_locked : ∀ thread lock, holds (config.locals thread) = some lock →
    locked config.shared lock
  locked_owned : ∀ lock, locked config.shared lock →
    ∃ thread, holds (config.locals thread) = some lock
  unique : ∀ first second lock, holds (config.locals first) = some lock →
    holds (config.locals second) = some lock → first = second

/-- What one thread step does to the locks: take a free one, give back its own, or nothing. -/
inductive LockStep (holds : Local → Option Lock) (locked : Shared → Lock → Prop)
    (shared : Shared) (before : Local) (shared' : Shared) (after : Local) : Prop where
  | acquire (lock : Lock) : holds before = none → ¬ locked shared lock →
      holds after = some lock →
      (∀ other, locked shared' other ↔ other = lock ∨ locked shared other) →
      LockStep holds locked shared before shared' after
  | release (lock : Lock) : holds before = some lock → holds after = none →
      (∀ other, locked shared' other ↔ other ≠ lock ∧ locked shared other) →
      LockStep holds locked shared before shared' after
  | keep : holds after = holds before → (∀ other, locked shared' other ↔ locked shared other) →
      LockStep holds locked shared before shared' after

variable {holds : Local → Option Lock} {locked : Shared → Lock → Prop}

omit [DecidableEq Thread] in
/-- No lock is taken and no thread is in a critical section. -/
theorem Exclusive.of_free {config : Config Thread Shared Local}
    (hlocals : ∀ thread, holds (config.locals thread) = none)
    (hlocks : ∀ lock, ¬ locked config.shared lock) : Exclusive holds locked config where
  owned_locked thread lock h := by simp [hlocals] at h
  locked_owned lock h := (hlocks lock h).elim
  unique first second lock h := by simp [hlocals] at h

section Step

variable {config : Config Thread Shared Local} {thread : Thread} {shared : Shared} {after : Local}
variable {lock : Lock}

/-- A thread that takes a free lock is the only one in its critical section. -/
theorem Exclusive.acquire (h : Exclusive holds locked config)
    (hbefore : holds (config.locals thread) = none) (hfree : ¬ locked config.shared lock)
    (hafter : holds after = some lock)
    (hlocks : ∀ other, locked shared other ↔ other = lock ∨ locked config.shared other) :
    Exclusive holds locked ⟨shared, Function.update config.locals thread after⟩ := by
  obtain ⟨howned, hlocked, hunique⟩ := h
  have hother : ∀ other ≠ thread, holds (config.locals other) ≠ some lock :=
    fun other _ hholds => hfree (howned other lock hholds)
  refine ⟨fun t l ht => ?_, fun l hl => ?_, fun t u l ht hu => ?_⟩
  · rcases eq_or_ne t thread with rfl | hne
    · simp only [Function.update_self, hafter, Option.some.injEq] at ht
      exact (hlocks l).2 (.inl ht.symm)
    · simp only [Function.update_of_ne hne] at ht
      exact (hlocks l).2 (.inr (howned t l ht))
  · rcases (hlocks l).1 hl with rfl | hl
    · exact ⟨thread, by simpa using hafter⟩
    · obtain ⟨t, ht⟩ := hlocked l hl
      have hne : t ≠ thread := fun heq => by simp [heq, hbefore] at ht
      exact ⟨t, by simpa [Function.update_of_ne hne] using ht⟩
  -- of two owners at most one is the thread that took the lock
  · rcases eq_or_ne t thread with rfl | htne <;> rcases eq_or_ne u t with rfl | hune
    · rfl
    · simp only [Function.update_self, hafter, Option.some.injEq] at ht
      simp only [Function.update_of_ne hune] at hu
      exact (hother u hune (ht ▸ hu)).elim
    · rfl
    · simp only [Function.update_of_ne htne] at ht
      rcases eq_or_ne u thread with rfl | hune'
      · simp only [Function.update_self, hafter, Option.some.injEq] at hu
        exact (hother t htne (hu ▸ ht)).elim
      · simp only [Function.update_of_ne hune'] at hu
        exact hunique t u l ht hu

/-- A thread that gives its lock back leaves the others in their critical sections. -/
theorem Exclusive.release (h : Exclusive holds locked config)
    (hbefore : holds (config.locals thread) = some lock) (hafter : holds after = none)
    (hlocks : ∀ other, locked shared other ↔ other ≠ lock ∧ locked config.shared other) :
    Exclusive holds locked ⟨shared, Function.update config.locals thread after⟩ := by
  obtain ⟨howned, hlocked, hunique⟩ := h
  have hkeep : ∀ t l, holds (Function.update config.locals thread after t) = some l →
      t ≠ thread ∧ holds (config.locals t) = some l := fun t l ht => by
    rcases eq_or_ne t thread with rfl | hne
    · simp [hafter] at ht
    · exact ⟨hne, by simpa [Function.update_of_ne hne] using ht⟩
  refine ⟨fun t l ht => ?_, fun l hl => ?_, fun t u l ht hu => ?_⟩
  · obtain ⟨hne, ht⟩ := hkeep t l ht
    refine (hlocks l).2 ⟨fun heq => hne ?_, howned t l ht⟩
    exact hunique t thread l ht (heq ▸ hbefore)
  · obtain ⟨hne, hl⟩ := (hlocks l).1 hl
    obtain ⟨t, ht⟩ := hlocked l hl
    have htne : t ≠ thread := fun heq => by
      rw [heq, hbefore] at ht
      exact hne (Option.some.inj ht).symm
    exact ⟨t, by simpa [Function.update_of_ne htne] using ht⟩
  · exact hunique t u l (hkeep t l ht).2 (hkeep u l hu).2

/-- A step that moves no lock. -/
theorem Exclusive.keep (h : Exclusive holds locked config)
    (hholds : holds after = holds (config.locals thread))
    (hlocks : ∀ other, locked shared other ↔ locked config.shared other) :
    Exclusive holds locked ⟨shared, Function.update config.locals thread after⟩ := by
  obtain ⟨howned, hlocked, hunique⟩ := h
  have hsame : ∀ t, holds (Function.update config.locals thread after t) =
      holds (config.locals t) := fun t => by
    rcases eq_or_ne t thread with rfl | hne
    · simpa using hholds
    · simp [Function.update_of_ne hne]
  refine ⟨fun t l ht => ?_, fun l hl => ?_, fun t u l ht hu => ?_⟩
  · exact (hlocks l).2 (howned t l (by rwa [← hsame t]))
  · obtain ⟨t, ht⟩ := hlocked l ((hlocks l).1 hl)
    exact ⟨t, (hsame t).trans ht⟩
  · exact hunique t u l (by rwa [← hsame t]) (by rwa [← hsame u])

/-- Mutual exclusion is preserved by a step that respects the locks. -/
theorem Exclusive.step (h : Exclusive holds locked config)
    (hstep : LockStep holds locked config.shared (config.locals thread) shared after) :
    Exclusive holds locked ⟨shared, Function.update config.locals thread after⟩ := by
  cases hstep with
  | acquire lock hbefore hfree hafter hlocks => exact h.acquire hbefore hfree hafter hlocks
  | release lock hbefore hafter hlocks => exact h.release hbefore hafter hlocks
  | keep hholds hlocks => exact h.keep hholds hlocks

end Step

end Coursework.Atomic
