import Coursework.Atomic.Interleaving
import Coursework.Atomic.Program

/-!
# The threads of the counter exerciser

`add` and `add_thrd` of `lab2_add.c`. Every load, store, lock, test-and-set and
compare-and-swap of `add` is one atomic access; `sched_yield()` is a silent step. The two loops of
`add_thrd` make their calls one after the other, and the return of every call is a step of its
own, so a run records which calls have completed. The counter is an integer: `counter_range`
bounds it by the number of additions, far inside `long long`.
Vocabulary and scope: `Coursework.Atomic.Program`, `Coursework.Atomic.Interleaving`.
-/

namespace Coursework.AddThreads

open Atomic

/-- The values `get_opts` accepts for `sync_type`. -/
inductive SyncType where
  | n
  | c
  | m
  | s
  deriving DecidableEq

/-- The command line options. -/
structure Options where
  nThreads : Nat
  nIterations : Int
  optYield : Bool
  syncType : SyncType

/-- The shared variables `counter`, `mymutex` and `lock_s`. -/
inductive Loc where
  | counter
  | mymutex
  | lockS
  deriving DecidableEq

/-- The program points of `add` with its variables `sum` and `oldVal`. -/
inductive Control where
  | switch
  | mutexLock
  | testAndSet
  | spin
  | read
  | yield (sum : Int)
  | write (sum : Int)
  | unlock (lock : Loc)
  | casRead
  | casYield (oldVal sum : Int)
  | compareAndSwap (oldVal sum : Int)
  | returned

/-- The action of every program point of `add(pointer, value)`. -/
def add (options : Options) (pointer : Loc) (value : Int) : Control → Action Loc Int Control
  | .switch =>
      .pass (match options.syncType with
        | .n => .read
        | .c => .casRead
        | .m => .mutexLock
        | .s => .testAndSet)
  | .mutexLock =>
      -- `pthread_mutex_lock` blocks while the mutex is taken
      .access .mymutex fun held => if held = 0 then some (1, .read) else none
  | .testAndSet => .access .lockS fun held => some (1, if held = 0 then .read else .spin)
  | .spin => .load .lockS fun held => if held = 0 then .testAndSet else .spin
  | .read =>
      .load pointer fun current =>
        if options.optYield then .yield (current + value) else .write (current + value)
  | .yield sum => .pass (.write sum)
  | .write sum =>
      .store pointer sum (match options.syncType with
        | .n | .c => .returned
        | .m => .unlock .mymutex
        | .s => .unlock .lockS)
  | .unlock lock => .store lock 0 .returned
  | .casRead =>
      .load pointer fun oldVal =>
        if options.optYield then .casYield oldVal (oldVal + value)
        else .compareAndSwap oldVal (oldVal + value)
  | .casYield oldVal sum => .pass (.compareAndSwap oldVal sum)
  | .compareAndSwap oldVal sum =>
      .access pointer fun current =>
        some (if current = oldVal then (sum, .returned) else (current, .casRead))
  | .returned => .halt

/-- The two loops of `add_thrd`. -/
inductive Phase where
  | increment
  | decrement
  deriving DecidableEq

/-- The value a loop adds. -/
def Phase.value : Phase → Int
  | .increment => 1
  | .decrement => -1

/-- A thread's program point: the guard of a loop, or inside the call of iteration `i`. -/
inductive Local where
  | test (phase : Phase) (i : Int)
  | call (phase : Phase) (i : Int) (control : Control)
  | returned

/-- Where a thread continues when a loop ends. -/
def Phase.following : Phase → Local
  | .increment => .test .decrement 0
  | .decrement => .returned

/-- One step of `add_thrd`. -/
def addThrd (options : Options) (_ : Fin options.nThreads) (shared : Memory Loc Int) :
    Local → Option (Memory Loc Int × Local)
  | .test phase i =>
      some (shared, if i < options.nIterations then .call phase i .switch else phase.following)
  | .call phase i .returned => some (shared, .test phase (i + 1))
  | .call phase i control =>
      match next (add options .counter phase.value) (shared, control) with
      | some (shared, control) => some (shared, .call phase i control)
      | none => none
  | .returned => none

/-- The counter is 0 and the locks are free. -/
def start : Memory Loc Int :=
  fun _ => some 0

/-- The state in which `main` leaves the threads to run. -/
def initial (options : Options) : Config (Fin options.nThreads) (Memory Loc Int) Local where
  shared := start
  locals _ := .test .increment 0

/-- The thread is inside `add`. -/
def InsideAdd : Local → Prop
  | .call _ _ _ => True
  | _ => False

/-- The value added by the call that an event completes. -/
def completedValue {options : Options} (event : Event (Fin options.nThreads) Local) : Option Int :=
  match event.before with
  | .call phase _ .returned => some phase.value
  | _ => none

/-- The values of all completed calls. -/
def completed {options : Options} (events : List (Event (Fin options.nThreads) Local)) :
    List Int :=
  events.filterMap completedValue

end Coursework.AddThreads
