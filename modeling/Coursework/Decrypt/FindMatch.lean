import Coursework.Decrypt.Search

/-!
# When the search finds the first match

`findMatch_right` is about the search with any vectors of lengths and any outcomes of the tests. A
search in step finds the first match, and so does each search in a text of no more words than the
crib. Where a word that is not the first differs (`Slips`), the search goes on with the words of the
crib behind it: it reads outside the lengths of the crib, or it is too late for the next match.
Vocabulary and scope: `Coursework.Decrypt.Search`.
-/

namespace Coursework.Decrypt

section Search

variable (cipherWordLengths cribWordLengths : List Int) (newline simple : Nat → Bool)

/-- The tests of a possible match, with the outcomes of `containsNewline` and `isSimpleSub`. -/
def passesTests (startPos : Nat) : Option Bool :=
  if newline startPos then some false else some (simple startPos)

/-- The words from number `s` on pass both tests. -/
def PassesTests (s : Nat) : Prop :=
  newline s = false ∧ simple s = true

/-- The search reads the lengths only in range, ends and returns the first match. -/
def FindsMatch : Prop :=
  ∃ fuel found, searchWith cipherWordLengths cribWordLengths (passesTests newline simple) fuel 0 0
      cribWordLengths.length = some found ∧
    IsFirst (Matches cipherWordLengths cribWordLengths (PassesTests newline simple)) found

end Search

theorem decides_passesTests (cipherWordLengths cribWordLengths : List Int)
    (newline simple : Nat → Bool) : Decides cipherWordLengths cribWordLengths
      (PassesTests newline simple) (passesTests newline simple) := by
  intro s _ _ _
  rw [passesTests, PassesTests]
  cases newline s <;> simp

section Slips

variable {cipherWordLengths cribWordLengths : List Int} {Accepted : Nat → Prop}
variable {test : Nat → Option Bool} {s i : Nat}

/-- The search comes to the word that differs. -/
theorem searchWith_reaches_slip
    (htest : Decides cipherWordLengths cribWordLengths Accepted test)
    (h : Slips cipherWordLengths cribWordLengths Accepted s i) (fuel : Nat) :
    ∃ before ≥ fuel, ∃ behind ≥ fuel,
      searchWith cipherWordLengths cribWordLengths test before 0 0 cribWordLengths.length =
        searchWith cipherWordLengths cribWordLengths test behind i (s + i)
          (cribWordLengths.length - i) := by
  have hs : s ≤ cipherWordLengths.length :=
    Nat.le_of_lt (Nat.lt_of_le_of_lt (Nat.le_add_right s i) h.inCipher)
  obtain ⟨reached, hreached, hreaches⟩ :=
    searchWith_reaches (Nat.zero_lt_of_lt h.inCrib) htest hs h.passed (fuel + i)
  obtain ⟨more, rfl⟩ := Nat.exists_eq_add_of_le' hreached
  refine ⟨_, by omega, more + fuel, Nat.le_add_left fuel more, hreaches.trans ?_⟩
  rw [← Nat.add_assoc]
  exact searchWith_agrees test h.inCrib (Nat.le_of_lt h.inCipher) h.agrees _

/-- A word that differs and has no counterpart in the crib is compared with what is behind it. -/
theorem searchWith_outside (h : Slips cipherWordLengths cribWordLengths Accepted s i)
    (hout : cribWordLengths.length ≤ s + i) (matchCounter : Int) (fuel : Nat) :
    searchWith cipherWordLengths cribWordLengths test fuel i (s + i) matchCounter = none := by
  cases fuel with
  | zero => rfl
  | succ fuel =>
      rw [searchWith, if_pos h.inCrib, scanWords_differs h.inCrib h.inCipher h.differs,
        List.getElem?_eq_none hout]
      cases cipherWordLengths[i]? <;> rfl

/-- Behind a word that differs, the search goes on with the same word of the crib. -/
theorem searchWith_inside (h : Slips cipherWordLengths cribWordLengths Accepted s i)
    (hin : s + i < cribWordLengths.length) (matchCounter : Int) (fuel : Nat) :
    searchWith cipherWordLengths cribWordLengths test fuel i (s + i) matchCounter =
      searchWith cipherWordLengths cribWordLengths test fuel i (s + i + 1)
        (if cipherWordLengths[i]? ≠ cribWordLengths[s + i]? then cribWordLengths.length
          else matchCounter) := by
  have hi : i < cipherWordLengths.length := Nat.lt_of_le_of_lt (Nat.le_add_left i s) h.inCipher
  cases fuel with
  | zero => rfl
  | succ fuel =>
      rw [searchWith, searchWith, scanWords_differs h.inCrib h.inCipher h.differs,
        List.getElem?_eq_getElem hi, List.getElem?_eq_getElem hin]
      simp only [Option.bind_some, Ne, Option.some_inj]

/-! ## Too late for a match -/

/-- The counter is set back or goes down by one. -/
theorem scanWords_counter {rounds j j' : Nat} {matchCounter matchCounter' k : Int} {found : Bool}
    (hcounter : k ≤ matchCounter) (hlength : k ≤ cribWordLengths.length)
    (h : scanWords cipherWordLengths cribWordLengths i rounds j matchCounter =
      some (j', matchCounter', found)) : k - 1 ≤ matchCounter' := by
  induction rounds generalizing j matchCounter with
  | zero =>
      cases h
      omega
  | succ rounds ih =>
      rw [scanWords] at h
      obtain ⟨cipherLength, -, h⟩ := Option.bind_eq_some_iff.1 h
      obtain ⟨cribLength, -, h⟩ := Option.bind_eq_some_iff.1 h
      split at h
      case isTrue =>
        cases h
        omega
      case isFalse =>
        obtain ⟨cipherLength', -, h⟩ := Option.bind_eq_some_iff.1 h
        obtain ⟨cribLength', -, h⟩ := Option.bind_eq_some_iff.1 h
        refine ih ?_ h
        split
        · exact hlength
        · exact hcounter

/-- A search that needs more words than the crib has left finds nothing. -/
theorem searchWith_late {fuel j : Nat} {matchCounter : Int} {found : Option Nat} (hi : 0 < i)
    (hlate : cribWordLengths.length - i < matchCounter)
    (h : searchWith cipherWordLengths cribWordLengths test fuel i j matchCounter = some found) :
    found = none := by
  induction fuel generalizing i j matchCounter with
  | zero => cases h
  | succ fuel ih =>
      rw [searchWith] at h
      split at h
      case isTrue hcrib =>
        obtain ⟨⟨j', matchCounter', b⟩, hscan, h⟩ := Option.bind_eq_some_iff.1 h
        have hcounter := scanWords_counter (k := cribWordLengths.length - i + 1) (by omega)
          (by omega) hscan
        simp only at h
        rw [if_neg (by omega)] at h
        exact ih (Nat.succ_pos i) (by omega) h
      case isFalse =>
        cases h
        rfl

/-! ## Too few words -/

theorem scanWords_few (hle : cipherWordLengths.length ≤ cribWordLengths.length)
    (hi : i < cribWordLengths.length) {j : Nat} (hj : j ≤ cipherWordLengths.length)
    (hij : i ≤ j ∨ j = cipherWordLengths.length) {matchCounter : Int}
    (hfew : cipherWordLengths.length < matchCounter + j) :
    ∃ j' matchCounter' found,
      scanWords cipherWordLengths cribWordLengths i (cipherWordLengths.length - j) j matchCounter =
          some (j', matchCounter', found) ∧
        j' ≤ cipherWordLengths.length ∧ (i + 1 ≤ j' ∨ j' = cipherWordLengths.length) ∧
        cipherWordLengths.length < matchCounter' + j' := by
  rcases Nat.eq_or_lt_of_le hj with rfl | hlt
  · refine ⟨cipherWordLengths.length, matchCounter, false, ?_, Nat.le_refl _, .inr rfl, hfew⟩
    rw [Nat.sub_self]
    rfl
  · have hij' : i ≤ j := hij.resolve_right (Nat.ne_of_lt hlt)
    by_cases heq : cipherWordLengths[j]? = cribWordLengths[i]?
    · exact ⟨_, _, _, scanWords_found hi hlt heq matchCounter, hlt, .inl (Nat.succ_le_succ hij'),
        by omega⟩
    · rw [scanWords_differs hi hlt heq,
        List.getElem?_eq_getElem (Nat.lt_of_le_of_lt hij' hlt),
        List.getElem?_eq_getElem (Nat.lt_of_lt_of_le hlt hle)]
      simp only [Option.bind_some]
      refine scanWords_few hle hi hlt (.inl (Nat.le_succ_of_le hij')) ?_
      split <;> omega
termination_by cipherWordLengths.length - j

/-- A search that needs more words than the text has left finds nothing. -/
theorem searchWith_few (hle : cipherWordLengths.length ≤ cribWordLengths.length) {j : Nat}
    (hj : j ≤ cipherWordLengths.length) (hij : i ≤ j ∨ j = cipherWordLengths.length)
    {matchCounter : Int} (hfew : cipherWordLengths.length < matchCounter + j) {fuel : Nat}
    (hfuel : cribWordLengths.length - i < fuel) :
    searchWith cipherWordLengths cribWordLengths test fuel i j matchCounter = some none := by
  induction fuel generalizing i j matchCounter with
  | zero => omega
  | succ fuel ih =>
      rw [searchWith]
      split
      case isTrue hi =>
        obtain ⟨j', matchCounter', found, hscan, hj', hij', hfew'⟩ :=
          scanWords_few hle hi hj hij hfew
        rw [hscan]
        simp only [Option.bind_eq_bind, Option.bind_some]
        rw [if_neg (by omega)]
        exact ih hj' hij' hfew' (by omega)
      case isFalse => rfl

end Slips

/-! ## The result -/

section Right

variable {cipherWordLengths cribWordLengths : List Int} {newline simple : Nat → Bool}

theorem findsMatch_of_stops (hpos : 0 < cribWordLengths.length) {s : Nat}
    (hs : s ≤ cipherWordLengths.length)
    (hpassed : ∀ t < s,
      Passes cipherWordLengths cribWordLengths (PassesTests newline simple) t)
    (h : Stops cipherWordLengths cribWordLengths (PassesTests newline simple) s) :
    FindsMatch cipherWordLengths cribWordLengths newline simple :=
  ⟨_, searchWith_stops hpos (decides_passesTests _ _ newline simple) hs hpassed h
    (Nat.lt_succ_self _)⟩

/-- A search that slips is right about a text of no more words than the crib: there is no match. -/
theorem findsMatch_of_few (hle : cipherWordLengths.length ≤ cribWordLengths.length) {s i : Nat}
    (h : Slips cipherWordLengths cribWordLengths (PassesTests newline simple) s i) :
    FindsMatch cipherWordLengths cribWordLengths newline simple := by
  have hin : s + i < cribWordLengths.length := Nat.lt_of_lt_of_le h.inCipher hle
  have hcipher := h.inCipher
  obtain ⟨before, -, behind, hbehind, hreaches⟩ := searchWith_reaches_slip
    (decides_passesTests _ _ newline simple) h (cribWordLengths.length + 1)
  have hnone (t : Nat) : ¬ Matches cipherWordLengths cribWordLengths
      (PassesTests newline simple) t := by
    intro hmatch
    have hlength := hmatch.1
    rcases Nat.eq_zero_or_pos s with rfl | hs
    · obtain rfl : t = 0 := by omega
      exact h.differs (hmatch.2.1 i h.inCrib h.inCipher)
    · exact (h.passed t (by omega)).1 hmatch.stops
  refine ⟨before, none, ?_, hnone⟩
  rw [hreaches, searchWith_inside h hin]
  refine searchWith_few hle h.inCipher (.inl (by omega)) ?_ (by omega)
  split
  case isTrue => omega
  case isFalse heq =>
    -- the counter is set back unless some words were passed over before
    have hs : s ≠ 0 := by
      rintro rfl
      rw [Nat.zero_add] at heq
      exact heq (by simpa using h.differs)
    omega

/-- A search that slips is right only by chance. -/
theorem FindsMatch.of_slips {s i : Nat}
    (h : Slips cipherWordLengths cribWordLengths (PassesTests newline simple) s i)
    (hfinds : FindsMatch cipherWordLengths cribWordLengths newline simple) :
    s + i < cribWordLengths.length ∧ (cipherWordLengths[i]? = cribWordLengths[s + i]? ∨
      ∀ t, ¬ Matches cipherWordLengths cribWordLengths (PassesTests newline simple) t) := by
  obtain ⟨fuel, found, hfound, hfirst⟩ := hfinds
  obtain ⟨before, hbefore, behind, -, hreaches⟩ := searchWith_reaches_slip
    (decides_passesTests _ _ newline simple) h fuel
  have hsearch := searchWith_mono _ hbefore hfound
  rw [hreaches] at hsearch
  have hin : s + i < cribWordLengths.length := by
    by_contra hout
    rw [searchWith_outside h (Nat.le_of_not_lt hout)] at hsearch
    cases hsearch
  refine ⟨hin, or_iff_not_imp_left.2 fun hne => ?_⟩
  have hi : 0 < i := h.late.resolve_right (by omega)
  rw [searchWith_inside h hin, if_pos hne] at hsearch
  obtain rfl := searchWith_late hi (by omega) hsearch
  exact hfirst

end Right

/-- The search finds the first match if it is in step or the text has no more words than the crib.
Any other search slips, and is right only if it stays inside the lengths of the crib and, by chance,
the counter is not set back or there is no match. -/
theorem findMatch_right {cribWordLengths : List Int} (hne : cribWordLengths ≠ [])
    (cipherWordLengths : List Int) (newline simple : Nat → Bool) :
    (cipherWordLengths.length ≤ cribWordLengths.length ∨
        InStep cipherWordLengths cribWordLengths (PassesTests newline simple) →
      FindsMatch cipherWordLengths cribWordLengths newline simple) ∧
    (FindsMatch cipherWordLengths cribWordLengths newline simple →
      InStep cipherWordLengths cribWordLengths (PassesTests newline simple) ∨
      ∃ s i, Slips cipherWordLengths cribWordLengths (PassesTests newline simple) s i ∧
        s + i < cribWordLengths.length ∧ (cipherWordLengths[i]? = cribWordLengths[s + i]? ∨
          ∀ t, ¬ Matches cipherWordLengths cribWordLengths (PassesTests newline simple) t)) := by
  have hpos : 0 < cribWordLengths.length := List.length_pos_iff.2 hne
  obtain ⟨s, hs, hpassed, hend⟩ :=
    exists_end cipherWordLengths (PassesTests newline simple) hpos
  constructor
  · intro h
    rcases hend with hstops | ⟨i, hslips⟩
    · exact findsMatch_of_stops hpos hs hpassed hstops
    · rcases h with hle | hstep
      · exact findsMatch_of_few hle hslips
      · exact absurd hslips (hstep.not_slips s i)
  · intro hfinds
    rcases hend with hstops | ⟨i, hslips⟩
    · exact .inl (inStep_of_stops hpassed hstops)
    · exact .inr ⟨s, i, hslips, hfinds.of_slips hslips⟩

/-- The first word is passed over, and the next two are a match that the tests reject. -/
theorem second_match_found :
    FindsMatch [2, 3, 3, 3] [3, 3] (fun s => s == 1) (fun _ => true) := by
  refine (findMatch_right (List.cons_ne_nil 3 [3]) _ _ _).1 (.inr ?_)
  intro s _ _
  cases s with
  | zero => exact .inr ⟨by decide, Nat.zero_lt_two⟩
  | succ s =>
      refine .inl fun i hi hlt => ?_
      simp only [List.length_cons, List.length_nil] at hi hlt
      rw [Nat.add_right_comm]
      show (List.replicate 3 (3 : Int))[s + i]? = (List.replicate 2 (3 : Int))[i]?
      rw [List.getElem?_replicate, List.getElem?_replicate, if_pos (by omega), if_pos hi]

/-- The word behind the first one differs, and the match behind it is lost. -/
theorem match_lost : ¬ FindsMatch [1, 2, 1, 1] [1, 1] (fun _ => false) (fun _ => true) := by
  rintro ⟨fuel, found, hfound, hfirst⟩
  have hlost : searchWith [1, 2, 1, 1] [1, 1] (passesTests (fun _ => false) (fun _ => true)) 3 0 0
      2 = some none := by decide
  have hsame := (searchWith_mono _ (Nat.le_max_left fuel 3) hfound).symm.trans
    (searchWith_mono _ (Nat.le_max_right fuel 3) hlost)
  obtain rfl := Option.some_inj.1 hsame
  refine hfirst 2 ⟨Nat.le_refl 4, fun i _ _ => ?_, rfl, rfl⟩
  rw [Nat.add_comm]
  rfl

end Coursework.Decrypt
