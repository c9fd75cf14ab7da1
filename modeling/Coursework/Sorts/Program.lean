import Mathlib.Data.List.FinRange
import Mathlib.Order.Defs.LinearOrder

/-!
# Sorting sensors

`insertion_sort` of `sorts.cpp` and the last part of its `main`, which sorts pointers. A vector is
the list of its elements, and an access outside it is `none`. Averages are values of any linear
order, and `int` counters do not overflow. `std::sort` is a parameter: `StdSort` says what the
program relies on, for a comparison that is a strict weak order.
-/

namespace Coursework.Sorts

/-- `s[i] = x`. -/
def store {α : Type} (s : List α) (i : Nat) (x : α) : Option (List α) :=
  if i < s.length then some (s.set i x) else none

/-! ## Orders -/

variable {α : Type}

/-- The contract of a comparison. -/
structure StrictWeakOrder (comp : α → α → Bool) : Prop where
  irrefl : ∀ a, comp a a = false
  trans : ∀ {a b c}, comp a b = true → comp b c = true → comp a c = true
  incomparable : ∀ {a b c}, comp a b = false → comp b a = false → comp b c = false →
    comp c b = false → comp a c = false

/-- No element comes before one that stands ahead of it. -/
def InOrder (comp : α → α → Bool) (s : List α) : Prop :=
  s.Pairwise fun a b => comp b a = false

/-- A function like `std::sort`: for a strict weak order it returns a sorted permutation. -/
def StdSort (sort : {β : Type} → (β → β → Bool) → List β → List β) : Prop :=
  ∀ {β : Type} {comp : β → β → Bool}, StrictWeakOrder comp → ∀ s : List β,
    (sort comp s).Perm s ∧ InOrder comp (sort comp s)

/-! ## `insertion_sort` -/

/-- The inner loop: the elements that do not come before `nextItem` are shifted to the right. -/
def shiftFrom (comp : α → α → Bool) (nextItem : α) : (loc : Nat) → List α → Option (Nat × List α)
  | 0, s => some (0, s)
  | loc + 1, s => do
      let previous ← s[loc]?
      if !comp previous nextItem then do
        let s ← store s (loc + 1) previous
        shiftFrom comp nextItem loc s
      else some (loc + 1, s)

/-- The outer loop, which runs as long as there are unsorted elements. -/
def sortFrom (comp : α → α → Bool) : Nat → (unsorted : Nat) → List α → Option (List α)
  | 0, _, _ => none
  | fuel + 1, unsorted, s =>
      if unsorted < s.length then do
        let nextItem ← s[unsorted]?
        let (loc, s) ← shiftFrom comp nextItem unsorted s
        let s ← store s loc nextItem
        sortFrom comp fuel (unsorted + 1) s
      else some s

/-- `insertion_sort`. -/
def insertionSort (s : List α) (comp : α → α → Bool) : Option (List α) :=
  sortFrom comp (s.length + 1) 1 s

/-! ## Sensors -/

/-- `NREADINGS`. -/
def numReadings : Nat := 150

/-- `struct Sensor`, with averages and readings in `Value`. -/
structure Sensor (Value : Type) where
  id : Int
  avg : Value
  readings : Fin numReadings → Value

variable {Value : Type} [LinearOrder Value]

/-- `compareSensor`. -/
def compareSensor (lhs rhs : Sensor Value) : Bool :=
  if lhs.avg > rhs.avg then true
  else if lhs.avg < rhs.avg then false
  else decide (lhs.id < rhs.id)

/-- `isSorted`. -/
def isSorted : List (Sensor Value) → Bool
  | [] => true
  | [_] => true
  | previous :: sensor :: s =>
      if compareSensor sensor previous then false else isSorted (sensor :: s)

/-! ## Sorting pointers -/

/-- A pointer to an element of a vector of sensors. -/
abbrev SensorPtr (auxSensors : List (Sensor Value)) := Fin auxSensors.length

/-- `compareSensorPtr`. -/
def compareSensorPtr (auxSensors : List (Sensor Value)) (lhs rhs : SensorPtr auxSensors) : Bool :=
  compareSensor (auxSensors.get lhs) (auxSensors.get rhs)

/-- `&auxSensors[i]`. -/
def addressOf (auxSensors : List (Sensor Value)) (i : Nat) : Option (SensorPtr auxSensors) :=
  if h : i < auxSensors.length then some ⟨i, h⟩ else none

/-- The loop that fills the vector of pointers; `none` in the vector is a null pointer. -/
def fillPtrs (auxSensors : List (Sensor Value)) : Option (List (Option (SensorPtr auxSensors))) :=
  (List.range auxSensors.length).foldlM (fun auxSensorPtrs i => do
    let ptr ← addressOf auxSensors i
    store auxSensorPtrs i (some ptr)) (List.replicate auxSensors.length none)

/-- The loop that copies the sensors back through the pointers. -/
def copyBack (auxSensors sensors : List (Sensor Value))
    (auxSensorPtrs : List (SensorPtr auxSensors)) : Option (List (Sensor Value)) :=
  (List.range auxSensorPtrs.length).foldlM (fun sensors i => do
    let ptr ← auxSensorPtrs[i]?
    store sensors i (auxSensors.get ptr)) sensors

/-- The sort of pointers at the end of `main`. A null pointer must not be compared. -/
def pointerSort (sort : {β : Type} → (β → β → Bool) → List β → List β)
    (sensors : List (Sensor Value)) : Option (List (Sensor Value)) := do
  let auxSensors := sensors
  let filled ← fillPtrs auxSensors
  let auxSensorPtrs ← filled.mapM id
  copyBack auxSensors sensors (sort (compareSensorPtr auxSensors) auxSensorPtrs)

end Coursework.Sorts
