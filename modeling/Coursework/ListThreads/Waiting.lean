import Coursework.ListThreads.Safety
import Mathlib.Algebra.BigOperators.Fin
import Mathlib.Data.UInt

/-!
# The lock waits of the list threads

What `list_thrd` and `main` of `lab2_list.c` make of the clock. A clock gives the time that
`get_time` reads at every step of a run: a thread reads it before it tries to take a lock and again
when it has the lock, and adds the difference to its own place of `thrd_lock_wait`. `main` divides
the sum of all places by a number it computes from the options, as if there were one list.
`report_right_iff` says when this is the number of the waits.
Vocabulary and scope: `Coursework.ListThreads.Program`.
-/

namespace Coursework.ListThreads

open Atomic Heap Numbers SortedList

/-! ## The program -/

/-- `struct timespec`. -/
structure Timespec where
  tvSec : Int
  tvNsec : Int

/-- `get_runtime`. -/
def getRuntime (tsStart tsEnd : Timespec) : UInt64 :=
  UInt64.ofInt ((tsEnd.tvSec - tsStart.tvSec) * 1000000000) +
    UInt64.ofInt (tsEnd.tvNsec - tsStart.tvNsec)

/-- `thrd_wait_start` of every thread, `thrd_lock_wait`, and the waits that were added to it. -/
structure Ledger (Thread : Type) where
  thrdWaitStart : Thread → Timespec
  thrdLockWait : Thread → UInt64
  waits : List UInt64

/-- A division of unsigned numbers. -/
def quotient (m n : UInt64) : Option UInt64 :=
  if n = 0 then none else some (m / n)

/-- The numbers that `main` prints behind the options. -/
structure Report where
  nOperations : UInt64
  runtime : UInt64
  avgOpTime : UInt64
  nLockOperations : UInt64
  avgLockWaitTime : UInt64

/-- The computation of these numbers; overflow of `int` and division by zero are `none`. -/
def report (nThreads nIterations : Int) (tspecStart tspecEnd : Timespec) (totalLockWait : UInt64) :
    Option Report := do
  let nElements ← intResult (nThreads * nIterations)
  let runtime := getRuntime tspecStart tspecEnd
  let product ← intResult (nThreads * nIterations)
  let operations ← intResult (product * 3)
  let nOperations := UInt64.ofInt operations
  let avgOpTime ← quotient runtime nOperations
  let doubled ← intResult (2 * nElements)
  let lockOperations ← intResult (doubled + nThreads)
  let nLockOperations := UInt64.ofInt lockOperations
  let avgLockWaitTime ← quotient totalLockWait nLockOperations
  some ⟨nOperations, runtime, avgOpTime, nLockOperations, avgLockWaitTime⟩

variable {Thread α : Type} [DecidableEq Thread]

/-- A thread takes a lock in the step. -/
def acquires (event : Event Thread (Local α)) : Bool :=
  (holds event.before).isNone && (holds event.after).isSome

/-- What a thread does with the time it reads in a step. -/
def Ledger.enter (ledger : Ledger Thread) (event : Event Thread (Local α)) (now : Timespec) :
    Ledger Thread :=
  if acquires event then
    let wait := getRuntime (ledger.thrdWaitStart event.thread) now
    { ledger with
      thrdLockWait := Function.update ledger.thrdLockWait event.thread
        (ledger.thrdLockWait event.thread + wait)
      waits := ledger.waits ++ [wait] }
  else
    match event.before, event.after with
    | .test _ _, .acquire _ _ _ =>
        { ledger with thrdWaitStart := Function.update ledger.thrdWaitStart event.thread now }
    | _, _ => ledger

/-- The ledger behind the steps of a run. Nothing is in `thrd_wait_start` before. -/
def ledgerOf (clock : Nat → Timespec) (junk : Thread → Timespec)
    (events : List (Event Thread (Local α))) : Ledger Thread :=
  events.zipIdx.foldl (fun ledger entry => ledger.enter entry.1 (clock entry.2))
    ⟨junk, fun _ => 0, []⟩

/-- `total_lock_wait` when all threads are joined. -/
def Ledger.totalLockWait {nThreads : Nat} (ledger : Ledger (Fin nThreads)) : UInt64 :=
  (List.ofFn ledger.thrdLockWait).sum

/-- `main` divides by the number of times that a lock was taken, and reports the sum of all waits
divided by their number. -/
structure ReportsWaits {nThreads : Nat} (events : List (Event (Fin nThreads) (Local α)))
    (ledger : Ledger (Fin nThreads)) (r : Report) : Prop where
  operations : r.nLockOperations.toNat = events.countP acquires
  average : r.avgLockWaitTime.toNat = ledger.waits.sum.toNat / ledger.waits.length

/-! ## The ledger -/

section Entries

variable {clock : Nat → Timespec} {junk : Thread → Timespec}

theorem ledgerOf_snoc (events : List (Event Thread (Local α))) (event : Event Thread (Local α)) :
    ledgerOf clock junk (events ++ [event]) =
      (ledgerOf clock junk events).enter event (clock events.length) := by
  rw [ledgerOf, List.zipIdx_append, List.foldl_append, Nat.zero_add]
  rfl

/-- Every time that a lock is taken there is a wait, which is added to the total. -/
theorem enter_cases (ledger : Ledger Thread) (event : Event Thread (Local α)) (now : Timespec) :
    (acquires event = true ∧ ∃ wait, (ledger.enter event now).waits = ledger.waits ++ [wait] ∧
        (ledger.enter event now).thrdLockWait = Function.update ledger.thrdLockWait event.thread
          (ledger.thrdLockWait event.thread + wait)) ∨
      (acquires event = false ∧ (ledger.enter event now).waits = ledger.waits ∧
        (ledger.enter event now).thrdLockWait = ledger.thrdLockWait) := by
  unfold Ledger.enter
  cases hacquires : acquires event with
  | true => exact .inl ⟨rfl, _, rfl, rfl⟩
  | false =>
      refine .inr ⟨rfl, ?_⟩
      rw [if_neg (by decide)]
      split <;> exact ⟨rfl, rfl⟩

/-- There are as many waits as times that a lock is taken. -/
theorem length_waits (events : List (Event Thread (Local α))) :
    (ledgerOf clock junk events).waits.length = events.countP acquires := by
  induction events using List.reverseRecOn with
  | nil => rfl
  | append_singleton events event ih =>
      rw [ledgerOf_snoc, List.countP_append, ← ih, List.countP_singleton]
      rcases enter_cases (ledgerOf clock junk events) event (clock events.length) with
        ⟨hacquires, wait, hwaits, -⟩ | ⟨hacquires, hwaits, -⟩
      · rw [hwaits, hacquires, List.length_append]
        rfl
      · rw [hwaits, hacquires]
        rfl

/-- The places of all threads add up to the waits. -/
theorem totalLockWait_eq {nThreads : Nat} {junk : Fin nThreads → Timespec}
    (events : List (Event (Fin nThreads) (Local α))) :
    (ledgerOf clock junk events).totalLockWait = (ledgerOf clock junk events).waits.sum := by
  unfold Ledger.totalLockWait
  rw [List.sum_ofFn]
  induction events using List.reverseRecOn with
  | nil => exact Finset.sum_const_zero
  | append_singleton events event ih =>
      rw [ledgerOf_snoc]
      rcases enter_cases (ledgerOf clock junk events) event (clock events.length) with
        ⟨-, wait, hwaits, htotal⟩ | ⟨-, hwaits, htotal⟩
      · rw [hwaits, htotal, List.sum_append, ← ih, List.sum_singleton,
          sum_update fun _ wait => wait]
        abel
      · rw [hwaits, htotal, ih]

end Entries

/-! ## The rounds of the loops -/

section Rounds

variable {setup : Setup α}

variable (setup) in
/-- The number of rounds in the loops before a loop. -/
def roundsBefore : Phase → Int
  | .insertion => 0
  | .length => setup.nIterations
  | .lookup => setup.nIterations + setup.nLists

variable (setup) in
/-- How many times a thread has taken a lock when it comes to a program point. -/
def taken (offset : Nat) : Local α → Int
  | .test phase i | .acquire phase i _ | .spin phase i _ =>
      roundsBefore setup phase + (i - setup.first offset phase)
  | .call phase i _ _ | .release phase i _ =>
      roundsBefore setup phase + (i - setup.first offset phase) + 1
  | .deletion i _ _ => roundsBefore setup .lookup + (i - setup.first offset .lookup) + 1
  | .returned => 2 * setup.nIterations + setup.nLists
  | .corrupt => 0

/-- A thread's loops over elements have `n_iterations` rounds. -/
theorem bound_eq_add [setup.InRange] {offset : Fin setup.nThreads} {phase : Phase}
    (hphase : phase ≠ .length) :
    setup.bound offset phase = setup.first offset phase + setup.nIterations := by
  rw [first_eq hphase, bound_eq hphase, Nat.succ_mul, Int.natCast_add]

/-- A loop has its rounds behind it when it ends. -/
theorem taken_following [setup.InRange] (offset : Fin setup.nThreads) (phase : Phase) :
    taken setup offset (setup.following offset phase) =
      taken setup offset (.test phase (setup.bound offset phase)) := by
  cases phase with
  | insertion =>
      have hbound : setup.bound offset .insertion = _ := bound_eq_add (by simp)
      simp only [Setup.following, taken, roundsBefore]
      omega
  | length =>
      simp only [Setup.following, taken, roundsBefore, Setup.first, Setup.bound]
      omega
  | lookup =>
      have hbound : setup.bound offset .lookup = _ := bound_eq_add (by simp)
      simp only [Setup.following, taken, roundsBefore]
      omega

variable (setup) in
/-- The steps of a thread between its program points, whatever the shared memory is. -/
inductive Moves (offset : Nat) : Local α → Local α → Prop where
  | next {phase i sublist} : i < setup.bound offset phase →
      setup.sublistIdx i phase = some sublist →
      Moves offset (.test phase i) (.acquire phase i sublist)
  | leave {phase i} : ¬ i < setup.bound offset phase →
      Moves offset (.test phase i) (setup.following offset phase)
  | take {phase i sublist control} :
      Moves offset (.acquire phase i sublist) (.call phase i sublist control)
  | wait {phase i sublist} : Moves offset (.acquire phase i sublist) (.spin phase i sublist)
  | retry {phase i sublist} : Moves offset (.spin phase i sublist) (.acquire phase i sublist)
  | spin {phase i sublist} : Moves offset (.spin phase i sublist) (.spin phase i sublist)
  | access {phase i sublist control control'} :
      Moves offset (.call phase i sublist control) (.call phase i sublist control')
  | found {i sublist control control'} :
      Moves offset (.call .lookup i sublist control) (.deletion i sublist control')
  | called {phase i sublist control} :
      Moves offset (.call phase i sublist control) (.release phase i sublist)
  | unlink {i sublist control control'} :
      Moves offset (.deletion i sublist control) (.deletion i sublist control')
  | deleted {i sublist control} :
      Moves offset (.deletion i sublist control) (.release .lookup i sublist)
  | release {phase i sublist} : Moves offset (.release phase i sublist) (.test phase (i + 1))

/-- A step takes a lock exactly if the thread comes to have taken one more. -/
theorem Moves.taken_eq [setup.InRange] {offset : Fin setup.nThreads} {before after : Local α}
    (h : Moves setup offset before after) (hfits : Fits setup offset before) :
    taken setup offset after =
      taken setup offset before + if acquires ⟨offset, before, after⟩ then 1 else 0 := by
  cases h with
  | @leave phase i hge =>
      have hend : i = setup.bound offset phase := Int.le_antisymm hfits.2 (Int.not_lt.1 hge)
      have hnone : holds (setup.following offset phase) = none := by cases phase <;> rfl
      rw [taken_following, ← hend]
      simp [acquires, hnone]
  | release =>
      -- the round that ends is counted since its lock was taken
      simp only [taken, acquires, holds, Option.isNone_some, Bool.false_and, Bool.false_eq_true,
        if_false]
      omega
  | _ => simp [taken, acquires, holds]

/-- The charges of some steps are the number of times that they take a lock. -/
theorem sum_charges (events : List (Event (Fin setup.nThreads) (Local α))) :
    (events.map fun event => if acquires event then (1 : Int) else 0).sum =
      events.countP acquires := by
  induction events with
  | nil => rfl
  | cons event events ih =>
      rw [List.map_cons, List.sum_cons, ih, List.countP_cons]
      split <;> push_cast <;> omega

variable [DecidableEq α] {offset : Fin setup.nThreads} {shared shared' : Shared α} {after : Local α}

/-- A step inside a list function. -/
theorem advance_cases {control : Control α} {following? : Option (Local α)}
    {resume : Control α → Local α}
    (h : advance setup shared control following? resume = (shared', after)) :
    after = .corrupt ∨ following? = some after ∨ ∃ control', after = resume control' := by
  unfold advance at h
  split at h
  · cases h
    exact .inr (.inl rfl)
  · split at h <;> cases h
    · exact .inr (.inr ⟨_, rfl⟩)
    · exact .inl rfl

/-- A try to take a lock. -/
theorem moves_of_acquire {phase : Phase} {i sublist : Int}
    (hnext : listThrd setup offset shared (.acquire phase i sublist) = some (shared', after)) :
    after = .corrupt ∨ Moves setup offset (.acquire phase i sublist) after := by
  have henter : setup.enter i sublist phase = .corrupt ∨
      Moves setup offset (.acquire phase i sublist) (setup.enter i sublist phase) := by
    unfold Setup.enter
    split
    · exact .inr .take
    · exact .inl rfl
  simp only [listThrd] at hnext
  split at hnext
  · cases hnext
    exact .inl rfl
  · split at hnext <;> cases hnext
    exact henter
  · cases hnext
    split
    · exact henter
    · exact .inr .wait

/-- A step inside the list function of a loop body. -/
theorem moves_of_call {phase : Phase} {i sublist : Int} {control : Control α}
    (hnext : listThrd setup offset shared (.call phase i sublist control) = some (shared', after)) :
    after = .corrupt ∨ Moves setup offset (.call phase i sublist control) after := by
  simp only [listThrd, Option.some.injEq] at hnext
  rcases advance_cases hnext with rfl | hafter | ⟨control', rfl⟩
  · exact .inl rfl
  · unfold Setup.afterCall at hafter
    split at hafter <;> cases hafter
    · exact .inr .called
    · split
      · exact .inl rfl
      · exact .inr .called
    · exact .inl rfl
    · exact .inr .found
  · exact .inr .access

/-- A step inside `SortedList_delete`. -/
theorem moves_of_deletion {i sublist : Int} {control : Control α}
    (hnext : listThrd setup offset shared (.deletion i sublist control) = some (shared', after)) :
    after = .corrupt ∨ Moves setup offset (.deletion i sublist control) after := by
  simp only [listThrd, Option.some.injEq] at hnext
  rcases advance_cases hnext with rfl | hafter | ⟨control', rfl⟩
  · exact .inl rfl
  · unfold afterDelete at hafter
    split at hafter <;> cases hafter
    split
    · exact .inl rfl
    · exact .inr .deleted
  · exact .inr .unlink

/-- Every step of a thread is one of these, or it leads to `sig_corrupt`. -/
theorem moves_of_listThrd {before : Local α}
    (hnext : listThrd setup offset shared before = some (shared', after)) :
    after = .corrupt ∨ Moves setup offset before after := by
  cases before with
  | test phase i =>
      simp only [listThrd, Option.some.injEq, Prod.mk.injEq] at hnext
      obtain ⟨-, rfl⟩ := hnext
      split
      · next hlt =>
          unfold Setup.body
          cases hsublist : setup.sublistIdx i phase with
          | some sublist => exact .inr (.next hlt hsublist)
          | none => exact .inl rfl
      · next hge => exact .inr (.leave hge)
  | acquire phase i sublist => exact moves_of_acquire hnext
  | spin phase i sublist =>
      simp only [listThrd] at hnext
      split at hnext <;> cases hnext
      · exact .inl rfl
      · split
        · exact .inr .retry
        · exact .inr .spin
  | call phase i sublist control => exact moves_of_call hnext
  | deletion i sublist control => exact moves_of_deletion hnext
  | release phase i sublist =>
      simp only [listThrd] at hnext
      split at hnext <;> cases hnext
      · exact .inl rfl
      · exact .inr .release
  | returned => simp [listThrd] at hnext
  | corrupt => simp [listThrd] at hnext

/-- In a run of all threads, every thread takes a lock for each of its insertions, for each list
and for each of its deletions. -/
theorem countP_acquires [setup.InRange] {shared : Shared α}
    {events : List (Event (Fin setup.nThreads) (Local α))}
    {final : Config (Fin setup.nThreads) (Shared α) (Local α)} (hstart : Start setup shared)
    (hrun : Run (listThrd setup) (initial setup shared) events final)
    (hreturned : ∀ offset, final.locals offset = .returned) :
    events.countP acquires = setup.nThreads * (2 * setup.nIterations + setup.nLists) := by
  obtain ⟨-, hsum⟩ := hrun.sum_credit (Invariant setup) (fun offset => taken setup offset)
    (fun event => if acquires event then 1 else 0) (.initial hstart) (by
      intro config event config' hinv hstep
      have hinv' := hinv.step hstep
      refine ⟨hinv', ?_⟩
      cases hstep with
      | @move offset shared after hnext =>
          have hfits' : Fits setup offset after := by simpa using hinv'.fits offset
          have hcorrupt : after ≠ .corrupt := fun heq => (heq ▸ hfits' :)
          exact ((moves_of_listThrd hnext).resolve_left hcorrupt).taken_eq (hinv.fits offset))
  have hfinal : ∀ offset : Fin setup.nThreads, taken setup offset (final.locals offset) =
      2 * setup.nIterations + setup.nLists := fun offset => by rw [hreturned offset, taken]
  have hinitial : ∀ offset : Fin setup.nThreads,
      taken setup offset ((initial setup shared).locals offset) = 0 := fun offset => by
    simp [initial, taken, roundsBefore]
  rw [Finset.sum_congr rfl fun offset _ => hfinal offset,
    Finset.sum_congr rfl fun offset _ => hinitial offset, Finset.sum_const_zero, sum_charges,
    Finset.sum_const, Finset.card_univ, Fintype.card_fin, nsmul_eq_mul, zero_add] at hsum
  exact_mod_cast hsum.symm

end Rounds

/-! ## The report -/

section Numbers

theorem toNat_ofInt {n : Nat} (h : n ≤ 2147483647) : (UInt64.ofInt n).toNat = n := by
  rw [UInt64.ofInt, UInt64.toNat_ofNat']
  omega

theorem quotient_ofInt (m : UInt64) {n : Nat} (hpos : 0 < n) (h : n ≤ 2147483647) :
    quotient m (UInt64.ofInt n) = some (m / UInt64.ofInt n) := by
  refine if_neg fun heq => ?_
  have hzero := toNat_ofInt h
  rw [heq] at hzero
  exact absurd hzero.symm (Nat.ne_of_gt hpos)

variable {nThreads nIterations : Nat} (tspecStart tspecEnd : Timespec) (totalLockWait : UInt64)

/-- What `main` computes when the largest of its products is a value of `int`. -/
theorem report_eq (hthreads : 1 ≤ nThreads) (hiterations : 1 ≤ nIterations)
    (hsmall : 3 * (nThreads * nIterations) ≤ 2147483647) :
    ∃ r, report nThreads nIterations tspecStart tspecEnd totalLockWait = some r ∧
      r.nLockOperations.toNat = 2 * (nThreads * nIterations) + nThreads ∧
      r.avgLockWaitTime.toNat =
        totalLockWait.toNat / (2 * (nThreads * nIterations) + nThreads) := by
  have hle : nThreads ≤ nThreads * nIterations := Nat.le_mul_of_pos_right _ hiterations
  have hcast : (nThreads : Int) * nIterations = (nThreads * nIterations : Nat) := by push_cast; rfl
  generalize nThreads * nIterations = product at *
  have htriple : (product : Int) * 3 = (product * 3 : Nat) := by push_cast; rfl
  have hdoubled : 2 * (product : Int) = (2 * product : Nat) := by push_cast; rfl
  have hlock : ((2 * product : Nat) : Int) + nThreads = (2 * product + nThreads : Nat) := by
    push_cast
    rfl
  have hnumber := toNat_ofInt (n := 2 * product + nThreads) (by omega)
  refine ⟨⟨UInt64.ofInt (product * 3 : Nat), getRuntime tspecStart tspecEnd,
    getRuntime tspecStart tspecEnd / UInt64.ofInt (product * 3 : Nat),
    UInt64.ofInt (2 * product + nThreads : Nat),
    totalLockWait / UInt64.ofInt (2 * product + nThreads : Nat)⟩, ?_, hnumber, ?_⟩
  · simp only [report, hcast, intResult_natCast (n := product) (by omega), Option.bind_eq_bind,
      Option.bind_some, htriple, intResult_natCast (n := product * 3) (by omega), hdoubled,
      intResult_natCast (n := 2 * product) (by omega), hlock,
      intResult_natCast (n := 2 * product + nThreads) (by omega),
      quotient_ofInt _ (n := product * 3) (by omega) (by omega),
      quotient_ofInt _ (n := 2 * product + nThreads) (by omega) (by omega)]
  · show (totalLockWait / UInt64.ofInt (2 * product + nThreads : Nat)).toNat = _
    rw [UInt64.toNat_div, hnumber]

/-- When it is not, the computation overflows. -/
theorem report_overflow (hlarge : 2147483647 < 3 * (nThreads * nIterations)) :
    report nThreads nIterations tspecStart tspecEnd totalLockWait = none := by
  have hcast : (nThreads : Int) * nIterations = (nThreads * nIterations : Nat) := by push_cast; rfl
  have htriple : intResult ((nThreads * nIterations : Nat) * 3) = none := if_neg (by omega)
  unfold report
  rw [hcast]
  by_cases hproduct : nThreads * nIterations ≤ 2147483647
  · simp only [intResult_natCast hproduct, Option.bind_eq_bind, Option.bind_some, htriple,
      Option.bind_none]
  · have hnone : intResult (nThreads * nIterations : Nat) = none := if_neg (by omega)
    rw [hnone]
    rfl

end Numbers

variable [DecidableEq α] {setup : Setup α}

/-- In every run of all threads, `main` divides the sum of all lock waits by their number exactly if
there is one list and its computation does not overflow. -/
theorem report_right_iff (hthreads : 1 ≤ setup.nThreads) (hiterations : 1 ≤ setup.nIterations)
    {shared : Shared α} {events : List (Event (Fin setup.nThreads) (Local α))}
    {final : Config (Fin setup.nThreads) (Shared α) (Local α)} (hstart : Start setup shared)
    (hrun : Run (listThrd setup) (initial setup shared) events final)
    (hreturned : ∀ offset, final.locals offset = .returned) (clock : Nat → Timespec)
    (junk : Fin setup.nThreads → Timespec) (tspecStart tspecEnd : Timespec) :
    (∃ r, report setup.nThreads setup.nIterations tspecStart tspecEnd
          (ledgerOf clock junk events).totalLockWait = some r ∧
        ReportsWaits events (ledgerOf clock junk events) r) ↔
      setup.nLists = 1 ∧ 3 * (setup.nThreads * setup.nIterations) ≤ 2147483647 := by
  rw [totalLockWait_eq]
  by_cases hsmall : 3 * (setup.nThreads * setup.nIterations) ≤ 2147483647
  · have : setup.InRange := ⟨by omega⟩
    have hcount := countP_acquires hstart hrun hreturned
    obtain ⟨r, hreport, hnumber, haverage⟩ := report_eq tspecStart tspecEnd
      (ledgerOf clock junk events).waits.sum hthreads hiterations hsmall
    have hlists : 2 * (setup.nThreads * setup.nIterations) + setup.nThreads =
        events.countP acquires ↔ setup.nLists = 1 := by
      rw [hcount, Nat.mul_add, Nat.mul_left_comm, Nat.add_left_cancel_iff, eq_comm,
        Nat.mul_eq_left (by omega)]
    constructor
    · rintro ⟨r', hr', hright⟩
      obtain rfl := Option.some.inj (hreport.symm.trans hr')
      exact ⟨hlists.1 (hnumber.symm.trans hright.operations), hsmall⟩
    · rintro ⟨hone, -⟩
      have heq := hlists.2 hone
      refine ⟨r, hreport, hnumber.trans heq, ?_⟩
      rw [haverage, length_waits, heq]
  · rw [report_overflow _ _ _ (by omega)]
    exact iff_of_false (fun ⟨_, hr, _⟩ => nomatch hr) fun h => hsmall h.2

/-! ## One list and two -/

/-- A clock that shows the number of the step. -/
def stepClock (k : Nat) : Timespec :=
  ⟨0, k⟩

theorem pair_report : ∃ events final,
    Run (listThrd (pair .s)) (initial (pair .s) oneListShared) events final ∧
      (∀ offset, final.locals offset = .returned) ∧
      ∃ r, report 2 1 (stepClock 0) (stepClock 104)
          (ledgerOf stepClock (fun _ => stepClock 0) events).totalLockWait = some r ∧
        ReportsWaits events (ledgerOf stepClock (fun _ => stepClock 0) events) r := by
  obtain ⟨events, final, hrun, hall⟩ := pair_run
  have hthreads : 1 ≤ (pair .s).nThreads := by decide
  have hright := report_right_iff hthreads (by decide) (twoElements_start ..) hrun hall stepClock
    (fun _ => stepClock 0) (stepClock 0) (stepClock 104)
  exact ⟨_, final, hrun, hall, hright.2 ⟨rfl, by decide⟩⟩

/-- A thread that inserts and deletes one element, which belongs to the second of two lists. -/
def twoLists : Setup (Option Bool) where
  nThreads := 1
  nIterations := 1
  nLists := 2
  syncType := .m
  globalList i := some (decide (i = 1))
  elementPool _ := none
  key node := if node.isNone then some ⟨[110], by decide⟩ else none
  elemKey _ := ⟨[110], by decide⟩
  lists_pos := Nat.two_pos
  globalList_inj := by decide
  elementPool_inj _ hi _ hj _ :=
    (Int.le_antisymm (Int.lt_add_one_iff.1 hi.2) hi.1).trans
      (Int.le_antisymm (Int.lt_add_one_iff.1 hj.2) hj.1).symm
  key_globalList _ _ := rfl
  key_elementPool _ _ := rfl
  alphanumeric _ _ := by simp [IsAlphanumeric]

/-- The heap and the lock array in front of that thread. -/
def twoListsShared : Shared (Option Bool) where
  nodes field := some field.node
  locks i := if 0 ≤ i ∧ i < 2 then some 0 else none

theorem twoLists_start : Start twoLists twoListsShared where
  pool := by decide
  lists := by decide
  elements _ _ := ⟨rfl, rfl⟩
  locks _ := rfl

/-- The thread takes a lock four times, and `main` divides by three. -/
theorem twoLists_report : ∃ events final,
    Run (listThrd twoLists) (initial twoLists twoListsShared) events final ∧
      (∀ offset, final.locals offset = .returned) ∧ events.countP acquires = 4 ∧
      ∀ (clock : Nat → Timespec) (junk : Fin 1 → Timespec) (tspecStart tspecEnd : Timespec) r,
        report 1 1 tspecStart tspecEnd (ledgerOf clock junk events).totalLockWait = some r →
          r.nLockOperations = 3 ∧ ¬ ReportsWaits events (ledgerOf clock junk events) r := by
  have : twoLists.InRange := ⟨by decide⟩
  obtain ⟨⟨events, final⟩, hreplay, hreturned⟩ : ∃ result ∈
      replay (listThrd twoLists) (List.replicate 54 (0 : Fin 1)) (initial twoLists twoListsShared),
      result.2.locals (0 : Fin 1) = .returned := by decide +kernel
  have hrun := Run.start.replay hreplay
  have hall : ∀ offset : Fin 1, final.locals offset = .returned := fun offset => by
    rwa [Subsingleton.elim offset 0]
  have hcount := countP_acquires twoLists_start hrun hall
  refine ⟨_, final, hrun, hall, hcount, fun clock junk tspecStart tspecEnd r hr => ?_⟩
  obtain ⟨r', hreport, hnumber, -⟩ := report_eq tspecStart tspecEnd
    (ledgerOf clock junk events).totalLockWait (Nat.le_refl 1) (Nat.le_refl 1) (by decide)
  obtain rfl := Option.some.inj (hreport.symm.trans hr)
  refine ⟨UInt64.toNat_inj.1 hnumber, fun hright => ?_⟩
  have heq := hnumber.symm.trans (hright.operations.trans hcount)
  exact absurd heq (by decide)

end Coursework.ListThreads
