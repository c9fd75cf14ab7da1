import Coursework.Atomic.Interleaving
import Coursework.Numbers.IntRange
import Coursework.SortedList.Histories
import Mathlib.Algebra.Ring.Int.Defs
import Mathlib.Algebra.GroupWithZero.Basic

/-!
# The threads of the sorted list exerciser

`list_thrd` of `lab2_list.c` as a thread over the shared list nodes and the lock array. Lock,
test-and-set and release are single steps; inside a critical section the list functions run
one pointer access at a time. A memory fault raises `SIGSEGV`, whose handler ends in
`sig_corrupt`, so it leads to the same local state as a detected corruption. Clock readings
are left out: nothing else depends on them. The products of the options are of type `int` and keep
their low 32 bits.
Vocabulary and scope: `Coursework.SortedList.Program`, `Coursework.Atomic.Interleaving`.
-/

namespace Coursework.ListThreads

open Atomic Heap Numbers SortedList

/-- `(int) c` for a `char`, which is signed. -/
def charToInt (c : UInt8) : Int :=
  if c.toNat < 128 then c.toNat else c.toNat - 256

/-- The string literal `"coarse"`. -/
def coarse : CString :=
  ⟨[99, 111, 97, 114, 115, 101], by decide⟩

/-- `get_key_hash`. Keys have `key_len` characters, so the sum stays far inside `int`; the two
divisions truncate. -/
def getKeyHash (nLists : Nat) (key : CString) : Int :=
  if CString.strcmp key coarse = 0 then 0
  else ((key.bytes.map charToInt).sum.tdiv nLists).tmod nLists

/-- A digit or a letter. -/
def IsAlphanumeric (c : UInt8) : Prop :=
  48 ≤ c.toNat ∧ c.toNat ≤ 57 ∨ 65 ≤ c.toNat ∧ c.toNat ≤ 90 ∨ 97 ≤ c.toNat ∧ c.toNat ≤ 122

instance (c : UInt8) : Decidable (IsAlphanumeric c) :=
  inferInstanceAs (Decidable (_ ∨ _ ∨ _))

/-- The values of `sync_type` that synchronise. -/
inductive SyncType where
  | m
  | s
  deriving DecidableEq

/-- The options. -/
structure Options where
  nThreads : Nat
  nIterations : Nat
  nLists : Nat
  syncType : SyncType

/-- `n_elements`. -/
def Options.nElements (options : Options) : Int :=
  wrap (options.nThreads * options.nIterations)

/-- The index of an element of the pool. -/
def Options.InPool (options : Options) (i : Int) : Prop :=
  0 ≤ i ∧ i < options.nElements

instance (options : Options) (i : Int) : Decidable (options.InPool i) :=
  inferInstanceAs (Decidable (_ ∧ _))

/-- What `main` has set up before it creates the threads: the options, the list heads, the
element pool and its keys. -/
structure Setup (α : Type) extends Options where
  globalList : Nat → α
  elementPool : Int → α
  key : α → Option CString
  elemKey : Int → CString
  lists_pos : 0 < nLists
  globalList_inj : ∀ i < nLists, ∀ j < nLists, globalList i = globalList j → i = j
  elementPool_inj : ∀ i, toOptions.InPool i → ∀ j, toOptions.InPool j →
    elementPool i = elementPool j → i = j
  key_globalList : ∀ i < nLists, key (globalList i) = none
  key_elementPool : ∀ i, toOptions.InPool i → key (elementPool i) = some (elemKey i)
  alphanumeric : ∀ i, toOptions.InPool i → ∀ c ∈ (elemKey i).bytes, IsAlphanumeric c

/-- The three loops of `list_thrd`. -/
inductive Phase where
  | insertion
  | length
  | lookup
  deriving DecidableEq

/-- A thread's program point. `sublist` is the index of the list and lock in use; `call` runs the
list function of the phase under the lock and `deletion` the `SortedList_delete` that follows a
successful lookup. -/
inductive Local (α : Type) where
  | test (phase : Phase) (i : Int)
  | acquire (phase : Phase) (i sublist : Int)
  | spin (phase : Phase) (i sublist : Int)
  | call (phase : Phase) (i sublist : Int) (control : Control α)
  | deletion (i sublist : Int) (control : Control α)
  | release (phase : Phase) (i sublist : Int)
  | returned
  | corrupt
  deriving DecidableEq

/-- The memory shared by the threads: the list nodes and `mutex_arr` or `lock_arr_s`. -/
structure Shared (α : Type) where
  nodes : Memory (Cell α) α
  locks : Memory Int Int

variable {α : Type} [DecidableEq α] (setup : Setup α)

namespace Setup

/-- The first index of a thread's loop. -/
def first (offset : Nat) : Phase → Int
  | .insertion | .lookup => wrap (offset * setup.nIterations)
  | .length => 0

/-- The bound of a thread's loop. -/
def bound (offset : Nat) : Phase → Int
  | .insertion | .lookup => wrap ((offset + 1) * setup.nIterations)
  | .length => setup.nLists

/-- The list the loop body works on; reading the key of an element outside the pool is a memory
fault. -/
def sublistIdx (i : Int) : Phase → Option Int
  | .insertion | .lookup =>
      if setup.InPool i then some (getKeyHash setup.nLists (setup.elemKey i)) else none
  | .length => some i

/-- The start of the loop body. -/
def body (i : Int) (phase : Phase) : Local α :=
  match setup.sublistIdx i phase with
  | some sublist => .acquire phase i sublist
  | none => .corrupt

/-- Where a thread continues when a loop ends. -/
def following (offset : Nat) : Phase → Local α
  | .insertion => .test .length (setup.first offset .length)
  | .length => .test .lookup (setup.first offset .lookup)
  | .lookup => .returned

/-- The first control point of the list function called in the loop body; an index outside
`global_list` is a memory fault. -/
def enter (i sublist : Int) (phase : Phase) : Local α :=
  if 0 ≤ sublist ∧ sublist < setup.nLists then
    let list := setup.globalList sublist.toNat
    .call phase i sublist (match phase with
      | .insertion => .insertStart list (setup.elementPool i)
      | .length => .lengthStart list
      | .lookup => .lookupStart list (setup.elemKey i))
  else .corrupt

/-- What the loop body does with the result of its list function; `none` while it runs. -/
def afterCall (i sublist : Int) : Phase → Control α → Option (Local α)
  | .insertion, .inserted => some (.release .insertion i sublist)
  | .length, .measured count =>
      some (if count = -1 then .corrupt else .release .length i sublist)
  | .lookup, .found none => some .corrupt
  | .lookup, .found (some _) => some (.deletion i sublist (.deleteStart (setup.elementPool i)))
  | _, _ => none

end Setup

/-- What the loop body does with the result of `SortedList_delete`; `none` while it runs. -/
def afterDelete (i sublist : Int) : Control α → Option (Local α)
  | .deleted code => some (if code = 1 then .corrupt else .release .lookup i sublist)
  | _ => none

/-- Continue after a list function, or make its next memory access. -/
def advance (shared : Shared α) (control : Control α) (after : Option (Local α))
    (resume : Control α → Local α) : Shared α × Local α :=
  match after with
  | some following => (shared, following)
  | none =>
      match Atomic.next (program setup.key) (shared.nodes, control) with
      | some (nodes, control) => ({ shared with nodes }, resume control)
      | none => (shared, .corrupt)

/-- One step of `list_thrd`, started with `*offset_p = offset`. -/
def listThrd (offset : Fin setup.nThreads) (shared : Shared α) :
    Local α → Option (Shared α × Local α)
  | .test phase i =>
      some (shared, if i < setup.bound offset phase then setup.body i phase
        else setup.following offset phase)
  | .acquire phase i sublist =>
      match shared.locks sublist, setup.syncType with
      | none, _ => some (shared, .corrupt)
      | some held, .m =>
          -- `pthread_mutex_lock` blocks while the mutex is taken
          if held = 0 then
            some ({ shared with locks := Function.update shared.locks sublist (some 1) },
              setup.enter i sublist phase)
          else none
      | some held, .s =>
          some ({ shared with locks := Function.update shared.locks sublist (some 1) },
            if held = 0 then setup.enter i sublist phase else .spin phase i sublist)
  | .spin phase i sublist =>
      match shared.locks sublist with
      | none => some (shared, .corrupt)
      | some held =>
          some (shared, if held = 0 then .acquire phase i sublist else .spin phase i sublist)
  | .call phase i sublist control =>
      some (advance setup shared control (setup.afterCall i sublist phase control)
        (.call phase i sublist))
  | .deletion i sublist control =>
      some (advance setup shared control (afterDelete i sublist control)
        (.deletion i sublist))
  | .release phase i sublist =>
      match shared.locks sublist with
      | none => some (shared, .corrupt)
      | some _ =>
          some ({ shared with locks := Function.update shared.locks sublist (some 0) },
            .test phase (i + 1))
  | .returned => none
  | .corrupt => none

/-- The memory when the threads are created: a pool, for which `malloc` does not take a negative
number of elements, empty lists, allocated elements with arbitrary pointers, and free locks. -/
structure Start (shared : Shared α) : Prop where
  pool : 0 ≤ setup.nElements
  lists : ∀ i < setup.nLists,
    shared.nodes (.next (setup.globalList i)) = some (setup.globalList i) ∧
    shared.nodes (.prev (setup.globalList i)) = some (setup.globalList i)
  elements : ∀ i, setup.InPool i → Allocated shared.nodes (setup.elementPool i)
  locks : ∀ i : Int, shared.locks i = if 0 ≤ i ∧ i < setup.nLists then some 0 else none

/-- The state in which `main` leaves the threads to run. -/
def initial (shared : Shared α) : Config (Fin setup.nThreads) (Shared α) (Local α) where
  shared := shared
  locals offset := .test .insertion (setup.first offset .insertion)

/-- `main`'s loop over the lists after joining the threads, from list `i` with the accumulated
`list_len`: it ends without calling `sig_corrupt`. -/
inductive FinalCheck (nodes : Memory (Cell α) α) : Nat → Int → Prop where
  | done {i listLen} : ¬ i < setup.nLists → FinalCheck nodes i listLen
  | next {i listLen count} : i < setup.nLists →
      Returns (program setup.key) nodes (.lengthStart (setup.globalList i)) nodes
        (.measured count) →
      listLen + count = 0 → FinalCheck nodes (i + 1) (listLen + count) →
      FinalCheck nodes i listLen

end Coursework.ListThreads
