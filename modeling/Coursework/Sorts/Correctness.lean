import Coursework.Loops.Counting
import Coursework.Sorts.Program
import Mathlib.Data.List.Induction
import Mathlib.Data.List.OfFn
import Mathlib.Order.Nat

/-!
# Both ways of sorting agree

The inner loop of `insertion_sort` leaves a hole behind the elements that come before the item
(`shiftFrom_eq`); it goes past ties, so no order among them is kept. The item in the hole extends
the sorted part by one (`InOrder.insert`), whatever strict weak order is given. Sensors with
different ids are never tied, so they have one sorted permutation (`eq_of_inOrder`), and the sorted
pointers lead to the same one as the sorted sensors (`pointerSort_eq`).
Vocabulary and scope: `Coursework.Sorts.Program`.
-/

namespace Coursework.Sorts

section Vectors

variable {α : Type} {comp : α → α → Bool}

theorem store_eq {s : List α} {i : Nat} (h : i < s.length) (x : α) :
    store s i x = some (s.set i x) :=
  if_pos h

/-- Storing at the place of an element. -/
theorem store_append (front : List α) (x y : α) (back : List α) :
    store (front ++ x :: back) front.length y = some (front ++ y :: back) := by
  rw [store_eq (by simp), List.set_append_right _ _ (Nat.le_refl _), Nat.sub_self]
  rfl

/-! ## Insertion -/

/-- The inner loop shifts the last elements of the sorted part, up to one that comes before the
item, by induction on the sorted part from its end. -/
theorem shiftFrom_eq (comp : α → α → Bool) (nextItem : α) (sorted : List α) (x : α)
    (back : List α) :
    ∃ left right y, sorted = left ++ right ∧ (∀ a ∈ right, comp a nextItem = false) ∧
      (∀ a ∈ left.getLast?, comp a nextItem = true) ∧
      shiftFrom comp nextItem sorted.length (sorted ++ x :: back) =
        some (left.length, left ++ y :: (right ++ back)) := by
  induction sorted using List.reverseRecOn generalizing x back with
  | nil => exact ⟨[], [], x, rfl, by simp, by simp, rfl⟩
  | append_singleton sorted previous ih =>
      have hread : (sorted ++ [previous] ++ x :: back)[sorted.length]? = some previous := by
        rw [List.append_assoc, List.getElem?_append_right (Nat.le_refl _), Nat.sub_self]
        rfl
      rw [List.length_append, List.length_singleton, shiftFrom, hread]
      simp only [Option.bind_eq_bind, Option.bind_some]
      cases hcomp : comp previous nextItem with
      | true =>
          refine ⟨sorted ++ [previous], [], x, by simp, by simp, ?_, by simp⟩
          intro a ha
          rw [List.getLast?_concat] at ha
          cases ha
          exact hcomp
      | false =>
          obtain ⟨left, right, y, hsplit, hright, hleft, hrun⟩ := ih previous (previous :: back)
          refine ⟨left, right ++ [previous], y, by rw [hsplit, List.append_assoc], ?_, hleft, ?_⟩
          · intro a ha
            rcases List.mem_append.1 ha with ha | ha
            · exact hright a ha
            · rw [List.mem_singleton.1 ha]
              exact hcomp
          · have hstore : store (sorted ++ [previous] ++ x :: back) (sorted.length + 1) previous =
                some (sorted ++ previous :: previous :: back) := by
              have hlen : sorted.length + 1 = (sorted ++ [previous]).length := by simp
              rw [hlen, store_append, List.append_assoc, List.singleton_append]
            rw [List.append_assoc right, List.singleton_append]
            simp only [Bool.not_false, if_true, hstore, Option.bind_some, hrun]

/-- An item is put between the elements that come before it and those that do not. -/
theorem InOrder.insert (hcomp : StrictWeakOrder comp) {nextItem : α} {left right : List α}
    (h : InOrder comp (left ++ right)) (hright : ∀ a ∈ right, comp a nextItem = false)
    (hleft : ∀ a ∈ left.getLast?, comp a nextItem = true) :
    InOrder comp (left ++ nextItem :: right) := by
  obtain ⟨hinLeft, hinRight, hacross⟩ := List.pairwise_append.1 h
  -- no element of the left part is tied with the item
  have hbefore : ∀ a ∈ left, comp nextItem a = false := by
    intro a ha
    obtain rfl | ⟨front, last, rfl⟩ := List.eq_nil_or_concat' left
    · exact absurd ha List.not_mem_nil
    · have hlast : comp last nextItem = true := hleft last List.getLast?_concat
      have hle : comp last a = false := by
        rcases List.mem_append.1 ha with hfront | hmem
        · exact (List.pairwise_append.1 hinLeft).2.2 a hfront last (by simp)
        · rw [List.mem_singleton.1 hmem]
          exact hcomp.irrefl last
      rw [← Bool.not_eq_true]
      intro hnext
      rw [hcomp.trans hlast hnext] at hle
      cases hle
  refine List.pairwise_append.2 ⟨hinLeft, List.pairwise_cons.2 ⟨hright, hinRight⟩, ?_⟩
  intro a ha b hb
  rcases List.mem_cons.1 hb with rfl | hb
  · exact hbefore a ha
  · exact hacross a ha b hb

/-- The outer loop sorts what is left, by induction on the unsorted elements. -/
theorem sortFrom_eq (hcomp : StrictWeakOrder comp) (sorted : List α) {back : List α} {fuel : Nat}
    (hfuel : back.length < fuel) (h : InOrder comp sorted) :
    ∃ s, sortFrom comp fuel sorted.length (sorted ++ back) = some s ∧
      s.Perm (sorted ++ back) ∧ InOrder comp s := by
  induction hfuel using Loops.walk_induction generalizing sorted with
  | nil fuel =>
      rw [List.append_nil]
      exact ⟨sorted, by rw [sortFrom, if_neg (Nat.lt_irrefl _)], .refl _, h⟩
  | cons nextItem back fuel _ ih =>
      obtain ⟨left, right, y, rfl, hright, hleft, hrun⟩ :=
        shiftFrom_eq comp nextItem sorted nextItem back
      obtain ⟨s, hrest, hperm, horder⟩ := ih _
        (h.insert hcomp hright hleft)
      have hmiddle : (left ++ nextItem :: right).Perm (left ++ right ++ [nextItem]) :=
        List.perm_middle.trans (List.perm_append_singleton _ _).symm
      refine ⟨s, ?_, hperm.trans ?_, horder⟩
      · have hread : (left ++ right ++ nextItem :: back)[(left ++ right).length]? =
            some nextItem := by
          rw [List.getElem?_append_right (Nat.le_refl _), Nat.sub_self]
          rfl
        have hlen : (left ++ right).length + 1 = (left ++ nextItem :: right).length := by
          simp only [List.length_append, List.length_cons]
          omega
        rw [sortFrom, if_pos (by simp), hread]
        simp only [Option.bind_eq_bind, Option.bind_some, hrun, store_append]
        rw [hlen, ← hrest, List.append_assoc, List.cons_append]
      · have happend := hmiddle.append_right back
        rwa [List.append_assoc (left ++ right), List.singleton_append] at happend

/-- `insertion_sort` returns a sorted permutation. -/
theorem insertionSort_eq (hcomp : StrictWeakOrder comp) (s : List α) :
    ∃ s', insertionSort s comp = some s' ∧ s'.Perm s ∧ InOrder comp s' := by
  cases s with
  | nil => exact ⟨[], rfl, .nil, .nil⟩
  | cons first back =>
      exact sortFrom_eq hcomp [first] (Nat.lt_succ_of_lt (Nat.lt_succ_self _))
        (List.pairwise_singleton _ first)

/-! ## Loops that fill a vector -/

/-- A loop that stores a value at every index leaves the vector of these values. -/
theorem foldlM_store {β : Type} (read : Nat → Option α) (f : α → β) (values t : List β)
    (hlength : t.length = values.length)
    (hread : ∀ i < values.length, (read i).map f = values[i]?) :
    (List.range values.length).foldlM (fun t i => do
      let x ← read i
      store t i (f x)) t = some values := by
  -- after `k` steps the first `k` values are there
  have hsteps : ∀ k, k ≤ values.length → (List.range k).foldlM (fun t i => do
      let x ← read i
      store t i (f x)) t = some (values.take k ++ t.drop k) := by
    intro k
    induction k with
    | zero => intro _; rfl
    | succ k ih =>
        intro hk
        have hlt : k < t.length := by omega
        have htake : (values.take k).length = k := List.length_take_of_le (by omega)
        have hvalue := hread k hk
        rw [List.getElem?_eq_getElem hk] at hvalue
        obtain ⟨x, hx, hfx⟩ := Option.map_eq_some_iff.1 hvalue
        have hstore := store_append (values.take k) t[k] values[k] (t.drop (k + 1))
        rw [htake, ← List.drop_eq_getElem_cons hlt] at hstore
        rw [List.range_succ, List.foldlM_append, ih (by omega)]
        simp only [Option.bind_eq_bind, Option.bind_some, List.foldlM_cons, List.foldlM_nil, hx,
          hfx, hstore]
        rw [List.take_add_one, List.getElem?_eq_getElem hk, List.append_assoc]
        rfl
  rw [hsteps _ (Nat.le_refl _), List.take_length, ← hlength, List.drop_length, List.append_nil]

/-- Values that are all there. -/
theorem mapM_some (values : List α) : (values.map some).mapM id = some values := by
  induction values with
  | nil => rfl
  | cons x values ih =>
      rw [List.map_cons, List.mapM_cons, ih]
      rfl

end Vectors

/-! ## Sensors -/

variable {Value : Type} [LinearOrder Value] {sensors : List (Sensor Value)}

/-- One sensor comes first if its average is higher, or if it is the same and its id smaller. -/
theorem compareSensor_iff {lhs rhs : Sensor Value} :
    compareSensor lhs rhs = true ↔ rhs.avg < lhs.avg ∨ lhs.avg = rhs.avg ∧ lhs.id < rhs.id := by
  unfold compareSensor
  split
  · next hgt => simp [hgt]
  · next hngt =>
    split
    · next hlt =>
      exact iff_of_false Bool.false_ne_true fun hcase =>
        hcase.elim hngt fun hsame => hlt.ne hsame.1
    · next hnlt =>
      have hsame : lhs.avg = rhs.avg := le_antisymm (not_lt.1 hngt) (not_lt.1 hnlt)
      simp [hsame]

theorem compareSensor_eq_false_iff {lhs rhs : Sensor Value} :
    compareSensor lhs rhs = false ↔
      lhs.avg < rhs.avg ∨ lhs.avg = rhs.avg ∧ rhs.id ≤ lhs.id := by
  rw [← Bool.not_eq_true, compareSensor_iff, not_or, not_lt, not_and, not_lt, le_iff_lt_or_eq]
  constructor
  · intro h
    obtain ⟨hlt | hsame, hid⟩ := h
    · exact .inl hlt
    · exact .inr ⟨hsame, hid hsame⟩
  · intro h
    rcases h with hlt | ⟨hsame, hid⟩
    · exact ⟨.inl hlt, fun hsame => absurd hsame hlt.ne⟩
    · exact ⟨.inr hsame, fun _ => hid⟩

/-- Two sensors are tied when their averages and ids agree. -/
theorem compareSensor_tied {lhs rhs : Sensor Value} (h : compareSensor lhs rhs = false)
    (h' : compareSensor rhs lhs = false) : lhs.avg = rhs.avg ∧ lhs.id = rhs.id := by
  rw [compareSensor_eq_false_iff] at h h'
  rcases h with hlt | ⟨hsame, hid⟩
  · rcases h' with hlt' | ⟨hsame', -⟩
    · exact absurd hlt' hlt.not_gt
    · exact absurd hsame' hlt.ne'
  · rcases h' with hlt' | ⟨-, hid'⟩
    · exact absurd hsame hlt'.ne'
    · exact ⟨hsame, le_antisymm hid' hid⟩

/-- `compareSensor` is a strict weak order. -/
theorem compareSensor_strictWeakOrder :
    StrictWeakOrder (compareSensor : Sensor Value → Sensor Value → Bool) where
  irrefl := by
    intro a
    exact compareSensor_eq_false_iff.2 (.inr ⟨rfl, le_rfl⟩)
  trans := by
    intro a b c hab hbc
    rw [compareSensor_iff] at hab hbc ⊢
    rcases hab with hab | ⟨hab, hid⟩
    · rcases hbc with hbc | ⟨hbc, -⟩
      · exact .inl (hbc.trans hab)
      · exact .inl (hbc ▸ hab)
    · rcases hbc with hbc | ⟨hbc, hid'⟩
      · exact .inl (hab ▸ hbc)
      · exact .inr ⟨hab.trans hbc, hid.trans hid'⟩
  incomparable := by
    intro a b c hab hba hbc hcb
    obtain ⟨havg, hid⟩ := compareSensor_tied hab hba
    obtain ⟨havg', hid'⟩ := compareSensor_tied hbc hcb
    exact compareSensor_eq_false_iff.2 (.inr ⟨havg.trans havg', (hid.trans hid').ge⟩)

/-- `isSorted` finds no sensor that comes before one ahead of it. -/
theorem isSorted_of_inOrder (h : InOrder compareSensor sensors) : isSorted sensors = true := by
  fun_induction isSorted sensors with
  | case1 => rfl
  | case2 => rfl
  | case3 previous sensor s hbefore =>
      have hfirst := (List.pairwise_cons.1 h).1 sensor List.mem_cons_self
      rw [hbefore] at hfirst
      cases hfirst
  | case4 previous sensor s _ ih => exact ih (List.pairwise_cons.1 h).2

/-- Sensors with different ids have one sorted permutation. -/
theorem eq_of_inOrder (hids : (sensors.map Sensor.id).Nodup) {s s' : List (Sensor Value)}
    (hperm : s.Perm sensors) (hperm' : s'.Perm sensors) (h : InOrder compareSensor s)
    (h' : InOrder compareSensor s') : s = s' := by
  refine List.Perm.eq_of_pairwise (fun a b ha hb hab hba => ?_) h h' (hperm.trans hperm'.symm)
  obtain ⟨-, hid⟩ := compareSensor_tied hba hab
  exact List.inj_on_of_nodup_map hids (hperm.mem_iff.1 ha) (hperm'.mem_iff.1 hb) hid

/-! ## Pointers -/

omit [LinearOrder Value] in
/-- The pointers are filled in the order of the vector. -/
theorem fillPtrs_eq (auxSensors : List (Sensor Value)) :
    fillPtrs auxSensors = some ((List.finRange auxSensors.length).map some) := by
  have hlength : ((List.finRange auxSensors.length).map some).length = auxSensors.length := by simp
  have hloop := foldlM_store (addressOf auxSensors) some
    ((List.finRange auxSensors.length).map some) (List.replicate auxSensors.length none)
    (by simp) (by
      intro i hi
      rw [hlength] at hi
      simp [addressOf, hi])
  rw [hlength] at hloop
  exact hloop

omit [LinearOrder Value] in
/-- The sensors are copied back in the order of the pointers. -/
theorem copyBack_eq {auxSensors : List (Sensor Value)} (ptrs : List (SensorPtr auxSensors))
    (hlength : sensors.length = ptrs.length) :
    copyBack auxSensors sensors ptrs = some (ptrs.map auxSensors.get) := by
  have hloop := foldlM_store (ptrs[·]?) auxSensors.get (ptrs.map auxSensors.get) sensors
    (by simp [hlength]) (by simp)
  rw [List.length_map] at hloop
  exact hloop

/-- Sorted pointers lead to a sorted permutation of the sensors. -/
theorem pointerSort_eq {sort : {β : Type} → (β → β → Bool) → List β → List β} (hsort : StdSort sort)
    (sensors : List (Sensor Value)) :
    ∃ s', pointerSort sort sensors = some s' ∧ s'.Perm sensors ∧ InOrder compareSensor s' := by
  have horder : StrictWeakOrder (compareSensorPtr sensors) :=
    { irrefl := fun _ => compareSensor_strictWeakOrder.irrefl _
      trans := compareSensor_strictWeakOrder.trans
      incomparable := compareSensor_strictWeakOrder.incomparable }
  obtain ⟨hperm, hsorted⟩ := hsort horder (List.finRange sensors.length)
  have hlength := hperm.length_eq
  rw [List.length_finRange] at hlength
  refine ⟨(sort (compareSensorPtr sensors) (List.finRange sensors.length)).map sensors.get,
    ?_, ?_, List.pairwise_map.2 hsorted⟩
  · rw [pointerSort, fillPtrs_eq]
    simp only [Option.bind_eq_bind, Option.bind_some, mapM_some, copyBack_eq _ hlength.symm]
  · have hmap := hperm.map sensors.get
    rwa [← List.ofFn_eq_map, List.ofFn_get] at hmap

/-- Both ways lead to the same sorted permutation of sensors with different ids, and
`insertion_sort` sorts for every strict weak order. -/
theorem sorts_agree {sort : {β : Type} → (β → β → Bool) → List β → List β} (hsort : StdSort sort) :
    (∀ sensors : List (Sensor Value), (sensors.map Sensor.id).Nodup →
      ∃ s', insertionSort sensors compareSensor = some s' ∧ pointerSort sort sensors = some s' ∧
        s'.Perm sensors ∧ isSorted s' = true) ∧
      ∀ comp : Sensor Value → Sensor Value → Bool, StrictWeakOrder comp → ∀ sensors,
        ∃ s', insertionSort sensors comp = some s' ∧ s'.Perm sensors ∧ InOrder comp s' := by
  refine ⟨fun sensors hids => ?_, fun comp hcomp sensors => insertionSort_eq hcomp sensors⟩
  obtain ⟨s, hinsertion, hperm, horder⟩ := insertionSort_eq compareSensor_strictWeakOrder sensors
  obtain ⟨s', hpointers, hperm', horder'⟩ := pointerSort_eq hsort sensors
  obtain rfl := eq_of_inOrder hids hperm hperm' horder horder'
  exact ⟨s, hinsertion, hpointers, hperm, isSorted_of_inOrder horder⟩

/-- Merge sort is a function like `std::sort`. -/
theorem mergeSort_stdSort : StdSort fun comp s => s.mergeSort fun a b => !comp b a := by
  intro β comp hcomp s
  have htrans : ∀ a b c, (!comp b a) = true → (!comp c b) = true → (!comp c a) = true := by
    intro a b c hba hcb
    rw [Bool.not_eq_true'] at hba hcb ⊢
    cases hab : comp a b with
    | true =>
        rw [← Bool.not_eq_true]
        intro hca
        rw [hcomp.trans hca hab] at hcb
        cases hcb
    | false =>
        cases hbc : comp b c with
        | true =>
            rw [← Bool.not_eq_true]
            intro hca
            rw [hcomp.trans hbc hca] at hba
            cases hba
        | false => exact hcomp.incomparable hcb hbc hba hab
  have htotal : ∀ a b, ((!comp b a) || !comp a b) = true := by
    intro a b
    cases hab : comp a b with
    | false => simp
    | true =>
        cases hba : comp b a with
        | false => rfl
        | true =>
            have hself := hcomp.trans hab hba
            rw [hcomp.irrefl] at hself
            cases hself
  refine ⟨List.mergeSort_perm s _, (List.pairwise_mergeSort htrans htotal s).imp fun h => ?_⟩
  rwa [Bool.not_eq_true'] at h

/-- Two sensors with the same average are sorted by their ids. -/
theorem twoSensors_agree :
    ∃ s', insertionSort [⟨2, 50, fun _ => 50⟩, ⟨1, 50, fun _ => 50⟩] compareSensor = some s' ∧
      pointerSort (fun comp s => s.mergeSort fun a b => !comp b a)
        [(⟨2, 50, fun _ => 50⟩ : Sensor Nat), ⟨1, 50, fun _ => 50⟩] = some s' ∧
      s'.Perm [⟨2, 50, fun _ => 50⟩, ⟨1, 50, fun _ => 50⟩] ∧ isSorted s' = true :=
  (sorts_agree mergeSort_stdSort).1 _ (by decide)

end Coursework.Sorts
