import Coursework.Heap.Ring
import Coursework.Text.CString

/-!
# The sorted list functions as atomic programs

`SortedList.c` with one control point for every pointer load and store. The same program is
executed alone (`Atomic.Returns`) and interleaved with other threads. Keys are never
written by these functions, so they are a fixed map from nodes; the list head has no key.
`sched_yield()` has no effect on memory and is a silent step whether or not `opt_yield`
enables it.
-/

namespace Coursework.SortedList

open Atomic Heap

/-- The program points of the four functions with their live variables. -/
inductive Control (α : Type) where
  -- `SortedList_insert(list, element)`
  | insertStart (list element : α)
  | insertTest (list element lookup : α)
  | insertAdvance (list element lookup : α)
  | insertYield (element lookup : α)
  | insertReadPrev (element lookup : α)
  | insertSetPrev (element lookup before : α)
  | insertSetNext (element lookup : α)
  | insertReadLookupPrev (element lookup : α)
  | insertSetPrevNext (element lookup before : α)
  | insertSetLookupPrev (element lookup : α)
  | inserted
  -- `SortedList_delete(element)`
  | deleteStart (element : α)
  | deleteReadNext (element : α)
  | deleteTestNext (element after : α)
  | deleteReadPrev (element : α)
  | deleteTestPrev (element before : α)
  | deleteLoadNext (element : α)
  | deleteLoadPrev (element after : α)
  | deleteSetNextPrev (element after before : α)
  | deleteYield (element : α)
  | deleteReloadPrev (element : α)
  | deleteReloadNext (element before : α)
  | deleteSetPrevNext (before after : α)
  | deleted (result : Int)
  -- `SortedList_lookup(list, key)`
  | lookupStart (list : α) (sought : CString)
  | lookupTest (list : α) (sought : CString) (lookup : α)
  | lookupMatch (list : α) (sought : CString) (lookup : α)
  | lookupAdvance (list : α) (sought : CString) (lookup : α)
  | found (result : Option α)
  -- `SortedList_length(list)`
  | lengthStart (list : α)
  | lengthTestHead (list lookup : α)
  | lengthTest (list lookup : α) (count : Int)
  | lengthReadNext (list lookup : α) (count : Int)
  | lengthTestNext (list lookup after : α) (count : Int)
  | lengthAdvance (list lookup : α) (count : Int)
  | measured (result : Int)
  deriving DecidableEq

variable {α : Type} [DecidableEq α]

/-- `strcmp(left->key, right->key)`, undefined when a key is `NULL`. -/
def compareKeys (left right : Option CString) : Option Int := do
  let l ← left
  let r ← right
  pure (CString.strcmp l r)

/-- The action of every program point. -/
def program (key : α → Option CString) : Control α → Action (Cell α) α (Control α)
  | .insertStart list element => .load (.next list) fun lookup => .insertTest list element lookup
  | .insertTest list element lookup =>
      if lookup = list then .pass (.insertYield element lookup)
      else match compareKeys (key element) (key lookup) with
        | none => .fault
        | some order =>
            .pass (if order < 1 then .insertAdvance list element lookup
              else .insertYield element lookup)
  | .insertAdvance list element lookup =>
      .load (.next lookup) fun lookup => .insertTest list element lookup
  | .insertYield element lookup => .pass (.insertReadPrev element lookup)
  | .insertReadPrev element lookup =>
      .load (.prev lookup) fun before => .insertSetPrev element lookup before
  | .insertSetPrev element lookup before =>
      .store (.prev element) before (.insertSetNext element lookup)
  | .insertSetNext element lookup =>
      .store (.next element) lookup (.insertReadLookupPrev element lookup)
  | .insertReadLookupPrev element lookup =>
      .load (.prev lookup) fun before => .insertSetPrevNext element lookup before
  | .insertSetPrevNext element lookup before =>
      .store (.next before) element (.insertSetLookupPrev element lookup)
  | .insertSetLookupPrev element lookup => .store (.prev lookup) element .inserted
  | .inserted => .halt
  | .deleteStart element =>
      .pass (if key element = none then .deleted 1 else .deleteReadNext element)
  | .deleteReadNext element => .load (.next element) fun after => .deleteTestNext element after
  | .deleteTestNext element after =>
      .load (.prev after) fun back =>
        if back ≠ element then .deleted 1 else .deleteReadPrev element
  | .deleteReadPrev element => .load (.prev element) fun before => .deleteTestPrev element before
  | .deleteTestPrev element before =>
      .load (.next before) fun forth =>
        if forth ≠ element then .deleted 1 else .deleteLoadNext element
  | .deleteLoadNext element => .load (.next element) fun after => .deleteLoadPrev element after
  | .deleteLoadPrev element after =>
      .load (.prev element) fun before => .deleteSetNextPrev element after before
  | .deleteSetNextPrev element after before => .store (.prev after) before (.deleteYield element)
  | .deleteYield element => .pass (.deleteReloadPrev element)
  | .deleteReloadPrev element =>
      .load (.prev element) fun before => .deleteReloadNext element before
  | .deleteReloadNext element before =>
      .load (.next element) fun after => .deleteSetPrevNext before after
  | .deleteSetPrevNext before after => .store (.next before) after (.deleted 0)
  | .deleted _ => .halt
  | .lookupStart list sought => .load (.next list) fun lookup => .lookupTest list sought lookup
  | .lookupTest list sought lookup =>
      if lookup = list then .pass (.found none)
      else match compareKeys (some sought) (key lookup) with
        | none => .fault
        | some order => .pass (if order < 1 then .lookupMatch list sought lookup else .found none)
  | .lookupMatch list sought lookup =>
      match compareKeys (some sought) (key lookup) with
      | none => .fault
      | some order =>
          .pass (if order = 0 then .found (some lookup) else .lookupAdvance list sought lookup)
  | .lookupAdvance list sought lookup =>
      .load (.next lookup) fun lookup => .lookupTest list sought lookup
  | .found _ => .halt
  | .lengthStart list => .load (.next list) fun lookup => .lengthTestHead list lookup
  | .lengthTestHead list lookup =>
      .load (.prev lookup) fun back =>
        if back ≠ list then .measured (-1) else .lengthTest list lookup 0
  | .lengthTest list lookup count =>
      .pass (if lookup ≠ list then .lengthReadNext list lookup count else .measured count)
  | .lengthReadNext list lookup count =>
      .load (.next lookup) fun after => .lengthTestNext list lookup after count
  | .lengthTestNext list lookup after count =>
      .load (.prev after) fun back =>
        if back ≠ lookup then .measured (-1) else .lengthAdvance list lookup count
  | .lengthAdvance list lookup count =>
      .load (.next lookup) fun lookup => .lengthTest list lookup (count + 1)
  | .measured _ => .halt

end Coursework.SortedList
