import Coursework.Atomic.Interleaving
import Mathlib.Algebra.Order.BigOperators.Group.Finset
import Mathlib.Order.WellFounded

/-!
# Executions that do not end

An execution is an infinite run. Under a fair scheduler a thread that is able to move from some
time on moves again. `Execution.eventually_waits` is the rule for termination: if every step takes
the rank of the state down or is one of waiting, in the end all steps are steps of waiting. With
locks that exclude each other this is impossible under a fair scheduler
(`Execution.not_fair_of_waits`): the holder of a lock does not wait, and when no lock is taken a
thread gets one as soon as it has seen that.
-/

namespace Coursework.Atomic

variable {Thread Shared Local : Type} [DecidableEq Thread]
  {next : Thread → Shared → Local → Option (Shared × Local)}
  {initial : Config Thread Shared Local}

/-- An infinite run with the events of its steps. -/
structure Execution (next : Thread → Shared → Local → Option (Shared × Local))
    (initial : Config Thread Shared Local) where
  config : Nat → Config Thread Shared Local
  event : Nat → Event Thread Local
  start : config 0 = initial
  step : ∀ n, Step next (config n) (event n) (config (n + 1))

omit [DecidableEq Thread] in
/-- The thread has a transition. -/
def CanMove (next : Thread → Shared → Local → Option (Shared × Local))
    (config : Config Thread Shared Local) (thread : Thread) : Prop :=
  ∃ shared after, next thread config.shared (config.locals thread) = some (shared, after)

section Sums

variable [Fintype Thread] {locals : Thread → Local} {thread : Thread} {after : Local}
  (measure measure' : Thread → Local → Nat)

/-- A sum over all threads goes down with the summand of the thread that moves. -/
theorem sum_update_lt (hlt : measure' thread after < measure thread (locals thread))
    (hother : ∀ other ≠ thread, measure' other (locals other) = measure other (locals other)) :
    ∑ t, measure' t (Function.update locals thread after t) < ∑ t, measure t (locals t) := by
  refine Finset.sum_lt_sum (fun t _ => ?_) ⟨thread, Finset.mem_univ _, by simpa using hlt⟩
  rcases eq_or_ne t thread with rfl | hne
  · simpa using hlt.le
  · simp [Function.update_of_ne hne, hother t hne]

/-- It stays if this summand does. -/
theorem sum_update_eq (heq : measure thread after = measure thread (locals thread)) :
    ∑ t, measure t (Function.update locals thread after t) = ∑ t, measure t (locals t) := by
  refine Finset.sum_congr rfl fun t _ => ?_
  rcases eq_or_ne t thread with rfl | hne
  · simpa using heq
  · simp [Function.update_of_ne hne]

end Sums

namespace Execution

variable (e : Execution next initial)

/-- A thread that can move from some time on moves again. -/
def Fair : Prop :=
  ∀ thread n, (∀ m ≥ n, CanMove next (e.config m) thread) → ∃ m ≥ n, (e.event m).thread = thread

/-- The first steps of an execution are a run. -/
theorem run (n : Nat) : Run next initial ((List.range n).map e.event) (e.config n) := by
  induction n with
  | zero =>
      rw [e.start]
      exact .start
  | succ n ih =>
      rw [List.range_succ, List.map_append, List.map_singleton]
      exact ih.snoc (e.step n)

/-- If a step that is not one of waiting takes the rank down, and a step of waiting keeps it, the
steps are ones of waiting from some time on. -/
theorem eventually_waits {μ : Type*} [Preorder μ] [WellFoundedLT μ]
    (rank : Config Thread Shared Local → μ) (waits : Event Thread Local → Prop)
    (hstep : ∀ n, rank (e.config (n + 1)) < rank (e.config n) ∨
      rank (e.config (n + 1)) = rank (e.config n) ∧ waits (e.event n)) :
    ∃ n, ∀ m ≥ n, waits (e.event m) := by
  obtain ⟨_, ⟨n, rfl⟩, hleast⟩ := wellFounded_lt.has_min (Set.range fun n => rank (e.config n))
    (Set.range_nonempty _)
  rw [Set.forall_mem_range] at hleast
  -- the rank has come to its least value and stays there
  have hstays : ∀ m ≥ n, rank (e.config m) = rank (e.config n) := fun m hm => by
    induction m, hm using Nat.le_induction with
    | base => rfl
    | succ m _ ih =>
        rcases hstep m with hlt | ⟨heq, -⟩
        · exact (hleast _ (ih ▸ hlt)).elim
        · exact heq.trans ih
  refine ⟨n, fun m hm => ((hstep m).resolve_left fun hlt => ?_).2⟩
  exact hleast _ (hstays m hm ▸ hlt)

/-- What a step does to the threads that do not take it. -/
theorem locals_succ {n : Nat} {thread : Thread} (hne : (e.event n).thread ≠ thread) :
    (e.config (n + 1)).locals thread = (e.config n).locals thread := by
  have hstep := e.step n
  generalize e.config n = config, e.event n = event, e.config (n + 1) = config' at hstep hne
  cases hstep with
  | move _ => exact Function.update_of_ne hne.symm _ _

/-- The local states that an event records. -/
theorem event_locals (n : Nat) :
    (e.event n).before = (e.config n).locals (e.event n).thread ∧
      (e.event n).after = (e.config (n + 1)).locals (e.event n).thread := by
  have hstep := e.step n
  generalize e.config n = config, e.event n = event, e.config (n + 1) = config' at hstep
  cases hstep with
  | @move thread _ after _ =>
      exact ⟨rfl, (Function.update_self thread after config.locals).symm⟩

/-- The transition that a step takes. -/
theorem next_event (n : Nat) : ∃ shared,
    next (e.event n).thread (e.config n).shared (e.event n).before =
      some (shared, (e.event n).after) := by
  have hstep := e.step n
  generalize e.config n = config, e.event n = event, e.config (n + 1) = config' at hstep
  cases hstep with
  | move hnext => exact ⟨_, hnext⟩

/-- A thread that never moves stays where it is. -/
theorem locals_of_never {n : Nat} {thread : Thread}
    (hnever : ∀ m ≥ n, (e.config m).locals thread = (e.config n).locals thread →
      (e.event m).thread ≠ thread) :
    ∀ m ≥ n, (e.config m).locals thread = (e.config n).locals thread := by
  intro m hm
  induction m, hm using Nat.le_induction with
  | base => rfl
  | succ m hm ih => exact (e.locals_succ (hnever m hm ih)).trans ih

/-- An execution in which all threads only wait from some time on is not fair: a lock that is
taken has a holder that can move and does not wait, and when no lock is taken a thread waits once
at most. -/
theorem not_fair_of_waits {Lock : Type} {holds : Local → Option Lock}
    {locked : Shared → Lock → Prop} (waiting ready : Local → Prop) {n : Nat}
    (hwaits : ∀ m ≥ n, waiting (e.event m).before ∧ waiting (e.event m).after)
    (hexclusive : ∀ m, Exclusive holds locked (e.config m))
    (hholder : ∀ m thread lock, holds ((e.config m).locals thread) = some lock →
      ¬ waiting ((e.config m).locals thread) ∧ CanMove next (e.config m) thread)
    (hfree : ∀ m thread, (∀ lock, ¬ locked (e.config m).shared lock) →
      waiting ((e.config m).locals thread) → CanMove next (e.config m) thread ∧
        ∀ shared after, next thread (e.config m).shared ((e.config m).locals thread) =
          some (shared, after) → waiting after →
            ¬ ready ((e.config m).locals thread) ∧ ready after) : ¬ e.Fair := by
  intro hfair
  have hnone : ∀ m ≥ n, ∀ thread, holds ((e.config m).locals thread) = none := by
    intro m hm thread
    by_contra hsome
    obtain ⟨lock, hlock⟩ := Option.ne_none_iff_exists'.1 hsome
    have hstays : ∀ k ≥ m, (e.config k).locals thread = (e.config m).locals thread := by
      refine e.locals_of_never fun k hk hsame hthread => ?_
      refine (hholder k thread lock (hsame ▸ hlock)).1 ?_
      have hbefore := (hwaits k (hm.trans hk)).1
      rwa [(e.event_locals k).1, hthread] at hbefore
    obtain ⟨k, hk, hthread⟩ := hfair thread m fun k hk =>
      (hholder k thread lock (hstays k hk ▸ hlock)).2
    refine (hholder k thread lock (hstays k hk ▸ hlock)).1 ?_
    have hbefore := (hwaits k (hm.trans hk)).1
    rwa [(e.event_locals k).1, hthread] at hbefore
  have hunlocked : ∀ m ≥ n, ∀ lock, ¬ locked (e.config m).shared lock := by
    intro m hm lock hlocked
    obtain ⟨thread, hthread⟩ := (hexclusive m).locked_owned lock hlocked
    simp [hnone m hm thread] at hthread
  -- the thread of the first step has seen that no lock is taken, and never moves again
  have hmoves : ∀ m ≥ n, ¬ ready ((e.config m).locals (e.event m).thread) ∧
      ready (e.event m).after := by
    intro m hm
    obtain ⟨shared, hnext⟩ := e.next_event m
    obtain ⟨hbefore, hafter⟩ := hwaits m hm
    rw [(e.event_locals m).1] at hnext hbefore
    exact (hfree m _ (hunlocked m hm) hbefore).2 shared _ hnext hafter
  obtain ⟨-, hready⟩ := hmoves n le_rfl
  have hwaiting := (hwaits n le_rfl).2
  rw [(e.event_locals n).2] at hready hwaiting
  have hnever : ∀ m ≥ n + 1, (e.config m).locals (e.event n).thread =
      (e.config (n + 1)).locals (e.event n).thread → (e.event m).thread ≠ (e.event n).thread := by
    intro m hm hsame hthread
    have hnot := (hmoves m (Nat.le_of_succ_le hm)).1
    rw [hthread, hsame] at hnot
    exact hnot hready
  have hstays := e.locals_of_never hnever
  obtain ⟨m, hm, hthread⟩ := hfair (e.event n).thread (n + 1) fun m hm =>
    (hfree m _ (hunlocked m (Nat.le_of_succ_le hm)) (hstays m hm ▸ hwaiting)).1
  exact hnever m hm (hstays m hm) hthread

end Execution

end Coursework.Atomic
