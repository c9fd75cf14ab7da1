import Coursework.Anagrams.Program
import Mathlib.Data.List.Perm.Basic
import Mathlib.Tactic.Common

/-!
# The anagram search is complete

The recursion of `permute` and `swapLoop` checks the arrangements `arrangements word d` one after
another, where `d` positions are still to be chosen. Every position is swapped with every
other one, so arrangements repeat, but each permutation of the word is among them
(`mem_arrangements`): it is reached by the swaps that go to the right. `keep` says what one check
does to the matches found so far.
Vocabulary and scope: `Coursework.Anagrams.Program`.
-/

namespace Coursework.Anagrams

variable {α : Type}

/-! ## Arrangements -/

/-- A word with two characters exchanged. -/
def exchange (word : List α) (i j : Nat) : List α :=
  (swap word i j).getD word

/-- Two characters of a word can be exchanged. -/
theorem swap_eq {word : List α} {i j : Nat} (hi : i < word.length) (hj : j < word.length) :
    swap word i j = some ((word.set i word[j]).set j word[i]) := by
  have hnonneg : ¬ ((i : Int) < 0 ∨ (j : Int) < 0) := by omega
  simp [swap, hnonneg, hi, hj]

/-- The exchanged word. -/
theorem exchange_eq {word : List α} {i j : Nat} (hi : i < word.length) (hj : j < word.length) :
    exchange word i j = (word.set i word[j]).set j word[i] := by
  rw [exchange, swap_eq hi hj, Option.getD_some]

/-- An exchange permutes the characters. -/
theorem exchange_perm {word : List α} {i j : Nat} (hi : i < word.length) (hj : j < word.length) :
    (exchange word i j).Perm word := by
  rw [exchange_eq hi hj]
  exact List.set_set_perm hi hj

/-- An exchange with a later character brings it to its place and leaves the ones in front. -/
theorem take_exchange {word : List α} {k j : Nat} (hk : k < word.length)
    (hj : k + j < word.length) :
    (exchange word k (k + j)).take (k + 1) = word.take k ++ [word[k + j]] := by
  have hset : (word.set k word[k + j]).take (k + 1) = word.take k ++ [word[k + j]] := by
    rw [List.take_succ_eq_append_getElem (by rwa [List.length_set]), List.getElem_set_self,
      List.take_set_of_le (Nat.le_refl k)]
  rw [exchange_eq hk hj]
  by_cases hzero : j = 0
  · -- both characters are the same one, which is written twice
    subst hzero
    rw [← hset]
    simp
  · rw [List.take_set_of_le (show k + 1 ≤ k + j by omega), hset]

/-- Swapping again undoes a swap. -/
theorem swap_exchange {word : List α} {i j : Nat} (hi : i < word.length) (hj : j < word.length) :
    swap (exchange word i j) i j = some word := by
  have hlength : (exchange word i j).length = word.length := (exchange_perm hi hj).length_eq
  rw [swap_eq (hlength ▸ hi) (hlength ▸ hj)]
  simp only [exchange_eq hi hj]
  congr 1
  refine List.ext_getElem (by simp) fun k hk hk' => ?_
  simp only [List.getElem_set]
  by_cases hjk : j = k
  · subst hjk
    by_cases hij : j = i
    · simp [hij]
    · simp [hij]
  · by_cases hik : i = k <;> simp [hjk, hik]

/-- The arrangements in the order in which they are checked, with `d` positions still to be
chosen. -/
def arrangements (word : List α) : Nat → List (List α)
  | 0 => [word]
  | d + 1 => (List.range word.length).flatMap fun i =>
      arrangements (exchange word (word.length - (d + 2) : Nat) i) d

/-- Every arrangement is a permutation of the word. -/
theorem perm_of_mem_arrangements {word w : List α} {d : Nat} (hd : d < word.length)
    (h : w ∈ arrangements word d) : w.Perm word := by
  induction d generalizing word with
  | zero => rw [List.mem_singleton.1 h]
  | succ d ih =>
      obtain ⟨i, hi, hmem⟩ := List.mem_flatMap.1 h
      rw [List.mem_range] at hi
      have hperm := exchange_perm (show word.length - (d + 2) < word.length by omega) hi
      have hlt : d < (exchange word (word.length - (d + 2) : Nat) i).length := by
        rw [hperm.length_eq]
        omega
      exact (ih hlt hmem).trans hperm

/-- Permutations that agree in front are permutations behind. -/
theorem drop_perm {word w : List α} {k : Nat} (hperm : w.Perm word)
    (hchosen : w.take k = word.take k) : (w.drop k).Perm (word.drop k) := by
  rw [← List.take_append_drop k w, ← List.take_append_drop k word, hchosen] at hperm
  exact (List.perm_append_left_iff _).1 hperm

/-- Every permutation that agrees with the word on the positions already chosen is an
arrangement. -/
theorem mem_arrangements {word w : List α} {d : Nat} (hd : d < word.length) (hperm : w.Perm word)
    (hchosen : w.take (word.length - (d + 1)) = word.take (word.length - (d + 1))) :
    w ∈ arrangements word d := by
  have hlength := hperm.length_eq
  induction d generalizing word with
  | zero =>
      have hdrop := drop_perm hperm hchosen
      obtain ⟨c, hc⟩ : ∃ c, word.drop (word.length - (0 + 1)) = [c] := by
        rw [← List.length_eq_one_iff, List.length_drop]
        omega
      rw [hc, List.perm_singleton] at hdrop
      have hword : w = word :=
        calc w = w.take (word.length - (0 + 1)) ++ w.drop (word.length - (0 + 1)) :=
              (List.take_append_drop _ w).symm
          _ = word.take (word.length - (0 + 1)) ++ word.drop (word.length - (0 + 1)) := by
              rw [hchosen, hdrop, hc]
          _ = word := List.take_append_drop _ word
      exact List.mem_singleton.2 hword
  | succ d ih =>
      -- the next character of `w` stands at a position that is still to be chosen
      obtain ⟨k, hsub⟩ : ∃ k, word.length - (d + 2) = k := ⟨_, rfl⟩
      have hk : k < word.length := by omega
      have hkw : k < w.length := hlength ▸ hk
      rw [show word.length - (d + 1 + 1) = k from hsub] at hchosen
      have hmem : w[k] ∈ word.drop k := by
        rw [← (drop_perm hperm hchosen).mem_iff, List.drop_eq_getElem_cons hkw]
        exact List.mem_cons_self
      obtain ⟨j, hj, hget⟩ := List.mem_iff_getElem.1 hmem
      rw [List.length_drop] at hj
      rw [List.getElem_drop] at hget
      have hi : k + j < word.length := by omega
      have hexchange := exchange_perm hk hi
      have hlength' := hexchange.length_eq
      refine List.mem_flatMap.2 ⟨k + j, List.mem_range.2 hi, ?_⟩
      rw [hsub]
      refine ih (by omega) (hperm.trans hexchange.symm) ?_ (by omega)
      have hnext : (exchange word k (k + j : Nat)).length - (d + 1) = k + 1 := by omega
      rw [hnext, take_exchange hk hi, List.take_succ_eq_append_getElem hkw, hchosen, hget]

variable [DecidableEq α] {dict : List (List α)} {size : Nat}

/-! ## One check -/

/-- Whether the first `size` words of the dictionary contain the candidate. -/
theorem checkAgainstDict_eq (candidate : List α) (hsize : size ≤ dict.length) (counter : Nat) :
    checkAgainstDict candidate dict ((counter + size : Nat) : Int) counter =
      some (decide (candidate ∈ dict.take size)) := by
  induction dict generalizing size counter with
  | nil =>
      obtain rfl : size = 0 := by simpa using hsize
      simp [checkAgainstDict]
  | cons entry dict ih =>
      unfold checkAgainstDict
      cases size with
      | zero => simp
      | succ size =>
          have hne : (counter : Int) ≠ ((counter + (size + 1) : Nat) : Int) := by omega
          rw [if_neg hne]
          by_cases heq : candidate = entry
          · simp [heq]
          · have hrest := ih (Nat.le_of_succ_le_succ hsize) (counter + 1)
            have hcount : ((counter + 1 + size : Nat) : Int) =
                ((counter + (size + 1) : Nat) : Int) := by
              omega
            rw [hcount] at hrest
            simpa [heq] using hrest

/-- The matches after one more candidate was checked. -/
def keep (dict : List (List α)) (size : Nat) (found : List (List α)) (candidate : List α) :
    List (List α) :=
  if found.length = maxResults ∨ candidate ∈ found ∨ candidate ∉ dict.take size then found
  else found ++ [candidate]

/-- The slots and the counter that hold these matches; the other slots are as they were. -/
def stored (slots found : List (List α)) : List (List α) × Nat :=
  (found ++ slots.drop found.length, found.length)

/-- A check keeps to the slots there are. -/
theorem length_keep_le {found : List (List α)} (candidate : List α)
    (h : found.length ≤ maxResults) : (keep dict size found candidate).length ≤ maxResults := by
  unfold keep
  split
  · exact h
  · next hnot =>
    rw [not_or] at hnot
    have hne := hnot.1
    rw [List.length_append, List.length_singleton]
    omega

/-- The recursion over the slots adds a candidate that is new, by induction on the matches behind
the pointer. -/
theorem checkAgainstResults_eq (candidate : List α) (rest slots : List (List α)) (counter : Nat)
    (hsize : size ≤ dict.length) (hslots : counter + rest.length ≠ maxResults → slots ≠ []) :
    ∃ added, checkAgainstResults candidate (rest ++ slots) (counter + rest.length) counter dict
        size =
      some (added,
        if counter + rest.length = maxResults ∨ candidate ∈ rest ∨ candidate ∉ dict.take size then
          (rest ++ slots, counter + rest.length)
        else (rest ++ candidate :: slots.tail, counter + rest.length + 1)) := by
  by_cases hfull : counter + rest.length = maxResults
  · refine ⟨0, ?_⟩
    unfold checkAgainstResults
    rw [if_pos hfull, if_pos (.inl hfull)]
  induction rest generalizing counter with
  | nil =>
      have hdict := checkAgainstDict_eq candidate hsize 0
      rw [Nat.zero_add, Int.natCast_zero] at hdict
      have hne : slots ≠ [] := hslots hfull
      obtain ⟨slot, slots, rfl⟩ := List.exists_cons_of_ne_nil hne
      unfold checkAgainstResults
      rw [if_neg hfull, if_pos (by simp), hdict]
      by_cases hmem : candidate ∈ dict.take size
      · exact ⟨1, by simp [hmem, show counter ≠ maxResults from hfull]⟩
      · exact ⟨0, by simp [hmem]⟩
  | cons slot rest ih =>
      rw [List.length_cons] at hfull hslots
      have hcount : counter + (rest.length + 1) = counter + 1 + rest.length := by omega
      rw [hcount] at hfull hslots
      unfold checkAgainstResults
      rw [List.length_cons, hcount, if_neg hfull, if_neg (by omega)]
      by_cases heq : candidate = slot
      · exact ⟨0, by simp [heq]⟩
      · obtain ⟨added, hrest⟩ := ih (counter + 1) hslots hfull
        refine ⟨if added ≠ 0 then 1 else 0, ?_⟩
        rw [List.cons_append]
        simp only [hrest, Option.bind_eq_bind, Option.bind_some, List.mem_cons, heq,
          false_or]
        by_cases hkept : counter + 1 + rest.length = maxResults ∨ candidate ∈ rest ∨
            candidate ∉ dict.take size
        · simp only [if_pos hkept, if_false]
        · simp only [if_neg hkept, if_false, List.cons_append]

/-- A check that is started with the matches found so far. -/
theorem check_stored {slots found : List (List α)} (candidate : List α)
    (hsize : size ≤ dict.length) (hslots : slots.length = maxResults)
    (hfound : found.length ≤ maxResults) :
    ∃ added, checkAgainstResults candidate (stored slots found).1 (stored slots found).2 0 dict
        size =
      some (added, stored slots (keep dict size found candidate)) := by
  have hne : 0 + found.length ≠ maxResults → slots.drop found.length ≠ [] := by
    intro hne hnil
    rw [List.drop_eq_nil_iff] at hnil
    omega
  obtain ⟨added, hcheck⟩ :=
    checkAgainstResults_eq candidate found (slots.drop found.length) 0 hsize hne
  rw [Nat.zero_add] at hcheck
  refine ⟨added, ?_⟩
  simp only [stored, hcheck]
  unfold keep
  split
  · rfl
  · simp [List.append_assoc, List.tail_drop]

/-! ## The recursion -/

/-- The matches after all these candidates were checked. -/
def keepAll (dict : List (List α)) (size : Nat) (found candidates : List (List α)) :
    List (List α) :=
  candidates.foldl (keep dict size) found

/-- Checks keep to the slots there are. -/
theorem length_keepAll_le {found : List (List α)} (candidates : List (List α))
    (h : found.length ≤ maxResults) : (keepAll dict size found candidates).length ≤ maxResults := by
  induction candidates generalizing found with
  | nil => exact h
  | cons candidate candidates ih => exact ih (length_keep_le candidate h)

/-- Every candidate is kept as long as there is room. -/
theorem mem_keep {found : List (List α)} {candidate w : List α} :
    w ∈ keep dict size found candidate ↔
      w ∈ found ∨ w = candidate ∧ found.length ≠ maxResults ∧ candidate ∈ dict.take size := by
  unfold keep
  split
  · next hskip =>
    constructor
    · exact Or.inl
    · rintro (hmem | ⟨rfl, hroom, hlisted⟩)
      · exact hmem
      · exact (hskip.resolve_left hroom).resolve_right (not_not.2 hlisted)
  · next hnew =>
    rw [not_or, not_or, not_not] at hnew
    obtain ⟨hroom, -, hlisted⟩ := hnew
    rw [List.mem_append, List.mem_singleton]
    simp [hroom, hlisted]

/-- A check keeps the matches distinct. -/
theorem nodup_keep {found : List (List α)} (candidate : List α) (h : found.Nodup) :
    (keep dict size found candidate).Nodup := by
  unfold keep
  split
  · exact h
  · next hnew =>
    rw [not_or, not_or] at hnew
    exact List.nodup_append.2 ⟨h, List.pairwise_singleton _ _, fun a ha b hb hab =>
      hnew.2.1 (List.mem_singleton.1 hb ▸ hab ▸ ha)⟩

/-- What was found stays in front. -/
theorem length_le_keep (found : List (List α)) (candidate : List α) :
    found.length ≤ (keep dict size found candidate).length := by
  unfold keep
  split
  · exact Nat.le_refl _
  · rw [List.length_append]
    exact Nat.le_add_right _ _

/-- The matches stay distinct. -/
theorem nodup_keepAll {found : List (List α)} (candidates : List (List α)) (h : found.Nodup) :
    (keepAll dict size found candidates).Nodup := by
  induction candidates generalizing found with
  | nil => exact h
  | cons candidate candidates ih => exact ih (nodup_keep candidate h)

/-- The matches never get fewer. -/
theorem length_le_keepAll (found candidates : List (List α)) :
    found.length ≤ (keepAll dict size found candidates).length := by
  induction candidates generalizing found with
  | nil => exact Nat.le_refl _
  | cons candidate candidates ih => exact Nat.le_trans (length_le_keep found candidate) (ih _)

/-- Every match is a candidate from the dictionary. -/
theorem of_mem_keepAll {found candidates : List (List α)} {w : List α}
    (h : w ∈ keepAll dict size found candidates) :
    w ∈ found ∨ w ∈ candidates ∧ w ∈ dict.take size := by
  induction candidates generalizing found with
  | nil => exact .inl h
  | cons candidate candidates ih =>
      rcases ih h with hkept | ⟨hmem, hlisted⟩
      · rcases mem_keep.1 hkept with hfound | ⟨rfl, -, hlisted⟩
        · exact .inl hfound
        · exact .inr ⟨List.mem_cons_self, hlisted⟩
      · exact .inr ⟨List.mem_cons_of_mem _ hmem, hlisted⟩

/-- If there is room at the end, every candidate from the dictionary was kept. -/
theorem mem_keepAll {found candidates : List (List α)} {w : List α}
    (hroom : (keepAll dict size found candidates).length < maxResults)
    (h : w ∈ found ∨ w ∈ candidates ∧ w ∈ dict.take size) :
    w ∈ keepAll dict size found candidates := by
  induction candidates generalizing found with
  | nil =>
      rcases h with hfound | ⟨hmem, -⟩
      · exact hfound
      · exact absurd hmem List.not_mem_nil
  | cons candidate candidates ih =>
      have hnow : found.length < maxResults :=
        Nat.lt_of_le_of_lt (length_le_keepAll found (candidate :: candidates)) hroom
      refine ih hroom ?_
      rw [mem_keep, List.mem_cons] at *
      rcases h with hfound | ⟨rfl | hmem, hlisted⟩
      · exact .inl (.inl hfound)
      · exact .inl (.inr ⟨rfl, Nat.ne_of_lt hnow, hlisted⟩)
      · exact .inr ⟨hmem, hlisted⟩

/-- Enough fuel for `permute` with `d` positions to choose, and what it checks then. -/
def Permutes (dict : List (List α)) (size : Nat) (slots : List (List α)) (n d fuel : Nat) : Prop :=
  ∀ {word : List α} {found : List (List α)}, word.length = n → found.length ≤ maxResults →
    permute dict size fuel word (n - (d + 1) : Nat) ((n : Int) - 1) (stored slots found) =
      some (stored slots (keepAll dict size found (arrangements word d)))

/-- The loop checks the arrangements for the indices that are left, by induction on their
number. -/
theorem swapLoop_eq {slots : List (List α)} {n d enough : Nat} (hd : d + 1 < n)
    (henough : ∀ fuel, enough ≤ fuel → Permutes dict size slots n d fuel) (r : Nat) :
    ∃ enough', ∀ fuel, enough' ≤ fuel → ∀ {i : Nat} {word : List α} {found : List (List α)},
      i + r = n → word.length = n → found.length ≤ maxResults →
      swapLoop dict size fuel i (n - (d + 2) : Nat) ((n : Int) - 1) ((n : Int) - 1) word
          (stored slots found) =
        some (stored slots (keepAll dict size found ((List.range' i r).flatMap fun i =>
          arrangements (exchange word (n - (d + 2) : Nat) i) d))) := by
  induction r with
  | zero =>
      refine ⟨1, fun fuel hfuel i word found hi hword hfound => ?_⟩
      obtain ⟨fuel, rfl⟩ := Nat.exists_eq_add_one_of_ne_zero (Nat.ne_zero_of_lt hfuel)
      have hlast : (n : Int) - 1 < i := by omega
      rw [swapLoop, if_pos hlast]
      rfl
  | succ r ih =>
      obtain ⟨enough', hrest⟩ := ih
      refine ⟨max enough enough' + 1, fun fuel hfuel i word found hi hword hfound => ?_⟩
      obtain ⟨fuel, rfl⟩ := Nat.exists_eq_add_one_of_ne_zero (Nat.ne_zero_of_lt hfuel)
      have hindex : ¬ (n : Int) - 1 < i := by omega
      have hs : n - (d + 2) < word.length := by omega
      have hj : i < word.length := by omega
      have hlength := (exchange_perm hs hj).length_eq
      have hstart : ((n - (d + 2) : Nat) : Int) + 1 = (n - (d + 1) : Nat) := by omega
      have hinner := henough fuel (by omega) (hlength.trans hword) hfound
      have hfound' : (keepAll dict size found
          (arrangements (exchange word (n - (d + 2) : Nat) i) d)).length ≤ maxResults :=
        length_keepAll_le _ hfound
      have houter := hrest fuel (by omega) (show (i + 1) + r = n by omega) hword hfound'
      rw [swapLoop, if_neg hindex, swap_eq hs hj, ← exchange_eq hs hj, hstart]
      simp only [Option.bind_eq_bind, Option.bind_some, hinner, swap_exchange hs hj]
      rw [show (i : Int) + 1 = (i + 1 : Nat) from rfl, houter, List.range'_succ, List.flatMap_cons]
      simp only [keepAll, List.foldl_append]

/-- `permute` checks the arrangements. -/
theorem permutes {slots : List (List α)} {n d : Nat} (hd : d < n) (hsize : size ≤ dict.length)
    (hslots : slots.length = maxResults) :
    ∃ enough, ∀ fuel, enough ≤ fuel → Permutes dict size slots n d fuel := by
  induction d with
  | zero =>
      refine ⟨1, fun fuel hfuel word found hword hfound => ?_⟩
      obtain ⟨fuel, rfl⟩ := Nat.exists_eq_add_one_of_ne_zero (Nat.ne_zero_of_lt hfuel)
      obtain ⟨added, hcheck⟩ := check_stored word hsize hslots hfound
      have hlast : ((n - (0 + 1) : Nat) : Int) = (n : Int) - 1 := by omega
      rw [permute, if_pos hlast, hcheck]
      rfl
  | succ d ih =>
      obtain ⟨enough, henough⟩ := ih (Nat.lt_of_succ_lt hd)
      obtain ⟨enough', hloop⟩ := swapLoop_eq hd henough n
      refine ⟨enough' + 1, fun fuel hfuel word found hword hfound => ?_⟩
      obtain ⟨fuel, rfl⟩ := Nat.exists_eq_add_one_of_ne_zero (Nat.ne_zero_of_lt hfuel)
      have hnot : ((n - (d + 1 + 1) : Nat) : Int) ≠ (n : Int) - 1 := by omega
      have hall := hloop fuel (by omega) (Nat.zero_add n) hword hfound
      rw [permute, if_neg hnot]
      simp only [stored] at hall ⊢
      rw [Int.natCast_zero] at hall
      rw [hall, arrangements, List.range_eq_range', hword]

/-! ## The search -/

/-- `recBlends` returns the matches among all arrangements of the word. -/
theorem recBlends_eq {word : List α} {results : List (List α)} (hword : word ≠ [])
    (hsize : size ≤ dict.length) (hresults : results.length = maxResults) :
    ∃ enough, ∀ fuel, enough ≤ fuel → recBlends fuel word dict size results =
      some ((keepAll dict size [] (arrangements word (word.length - 1))).length,
        (stored results (keepAll dict size [] (arrangements word (word.length - 1)))).1) := by
  have hpos := List.length_pos_iff.2 hword
  obtain ⟨enough, henough⟩ :=
    permutes (d := word.length - 1) (show word.length - 1 < word.length by omega) hsize hresults
  refine ⟨enough, fun fuel hfuel => ?_⟩
  have hall := henough fuel hfuel rfl
    (show ([] : List (List α)).length ≤ maxResults from Nat.zero_le _)
  have hstart : word.length - (word.length - 1 + 1) = 0 := by omega
  rw [hstart] at hall
  simp only [stored, List.nil_append, List.length_nil, List.drop_zero, Int.natCast_zero] at hall
  unfold recBlends
  rw [hall]
  rfl

/-- The search terminates, and what it stores are the distinct permutations of the word that the
dictionary contains, all of them if there is room left. -/
theorem recBlends_complete {word : List α} {dict results : List (List α)} {size : Nat}
    (hword : word ≠ []) (hsize : size ≤ dict.length) (hresults : results.length = maxResults) :
    ∃ m slots, (∃ enough, ∀ fuel, enough ≤ fuel →
        recBlends fuel word dict size results = some (m, slots)) ∧
      m ≤ maxResults ∧ slots.length = maxResults ∧ (slots.take m).Nodup ∧
      (∀ w ∈ slots.take m, w.Perm word ∧ w ∈ dict.take size) ∧
      slots.drop m = results.drop m ∧
      (m < maxResults → ∀ w ∈ dict.take size, w.Perm word → w ∈ slots.take m) := by
  have hpos := List.length_pos_iff.2 hword
  obtain ⟨matches', hmatches⟩ : ∃ found,
    keepAll dict size [] (arrangements word (word.length - 1)) = found := ⟨_, rfl⟩
  have hlength : (keepAll dict size [] (arrangements word (word.length - 1))).length ≤
      maxResults := length_keepAll_le _ (Nat.zero_le _)
  have hnodup : (keepAll dict size [] (arrangements word (word.length - 1))).Nodup :=
    nodup_keepAll _ List.nodup_nil
  have hall := recBlends_eq hword hsize hresults
  rw [hmatches] at hlength hnodup hall
  refine ⟨matches'.length, (stored results matches').1, hall, hlength, ?_, ?_, ?_, ?_, ?_⟩
  · rw [stored, List.length_append, List.length_drop]
    omega
  · rw [stored, List.take_left]
    exact hnodup
  · intro w hw
    rw [stored, List.take_left, ← hmatches] at hw
    rcases of_mem_keepAll hw with hnil | ⟨hmem, hlisted⟩
    · exact absurd hnil List.not_mem_nil
    · exact ⟨perm_of_mem_arrangements (show word.length - 1 < word.length by omega) hmem, hlisted⟩
  · rw [stored, List.drop_left]
  · intro hroom w hlisted hperm
    rw [stored, List.take_left]
    rw [← hmatches] at hroom ⊢
    refine mem_keepAll hroom (.inr ⟨?_, hlisted⟩)
    refine mem_arrangements (show word.length - 1 < word.length by omega) hperm ?_
    have hstart : word.length - (word.length - 1 + 1) = 0 := by omega
    rw [hstart, List.take_zero, List.take_zero]

/-- Both arrangements of a word are found in a dictionary that repeats one of them. -/
theorem no_on_complete : ∃ m slots, (∃ enough, ∀ fuel, enough ≤ fuel →
      recBlends fuel ['n', 'o'] [['o', 'n'], ['n'], ['o', 'n'], ['n', 'o']] (4 : Nat)
        (List.replicate 20 []) = some (m, slots)) ∧
    (slots.take m).Nodup ∧
    (m < maxResults → ['o', 'n'] ∈ slots.take m ∧ ['n', 'o'] ∈ slots.take m) := by
  obtain ⟨m, slots, hall, -, -, hnodup, -, -, hcomplete⟩ := recBlends_complete
    (show ['n', 'o'] ≠ [] by decide)
    (show 4 ≤ [['o', 'n'], ['n'], ['o', 'n'], ['n', 'o']].length by decide)
    (show (List.replicate 20 ([] : List Char)).length = maxResults by decide)
  exact ⟨m, slots, hall, hnodup, fun hroom =>
    ⟨hcomplete hroom _ (by decide) (by decide), hcomplete hroom _ (by decide) (by decide)⟩⟩

end Coursework.Anagrams
