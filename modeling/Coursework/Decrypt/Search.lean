import Coursework.Decrypt.Program
import Mathlib.Data.Nat.Find

/-!
# The search while it keeps in step

`findMatch` tries the words of the crib one after the other. It does not go back to the first one
after a comparison that fails, and it then compares words of the two texts whose numbers have
changed places. So it is in step as long as only first words differ, and in the rows that the crib
has too (`InStep`). `searchWords_eq` says that such a search returns the first match, and that the
lengths behind it do not matter.
`searchWith` is the search with any tests; `exists_end` says how it can end.
Vocabulary and scope: `Coursework.Decrypt.Program`.
-/

namespace Coursework.Decrypt

section Lengths

variable (cipherWordLengths cribWordLengths : List Int)

/-- The words from number `s` on have the lengths of the words of the crib, up to the end of either
text. -/
def FitsToEnd (s : Nat) : Prop :=
  ∀ i < cribWordLengths.length, s + i < cipherWordLengths.length →
    cipherWordLengths[s + i]? = cribWordLengths[i]?

/-- The words from number `s` on are the words of a match. -/
def Matches (Accepted : Nat → Prop) (s : Nat) : Prop :=
  s + cribWordLengths.length ≤ cipherWordLengths.length ∧
    FitsToEnd cipherWordLengths cribWordLengths s ∧ Accepted s

/-- The search ends at the words from number `s` on: they run out, or they are accepted. -/
def Stops (Accepted : Nat → Prop) (s : Nat) : Prop :=
  FitsToEnd cipherWordLengths cribWordLengths s ∧
    (cipherWordLengths.length < s + cribWordLengths.length ∨ Accepted s)

/-- Until the search ends, only words that are compared with the first word of the crib differ
from it, and only where the crib has a word of the same number. -/
def InStep (Accepted : Nat → Prop) : Prop :=
  ∀ s < cipherWordLengths.length,
    (∀ t < s, ¬ Stops cipherWordLengths cribWordLengths Accepted t) →
      FitsToEnd cipherWordLengths cribWordLengths s ∨
        cipherWordLengths[s]? ≠ cribWordLengths[0]? ∧ s < cribWordLengths.length

/-- Up to the first match, the test of words that fit tells if they are accepted. -/
def Decides (Accepted : Nat → Prop) (test : Nat → Option Bool) : Prop :=
  ∀ s, (∀ t < s, ¬ Matches cipherWordLengths cribWordLengths Accepted t) →
    s + cribWordLengths.length ≤ cipherWordLengths.length →
    FitsToEnd cipherWordLengths cribWordLengths s →
    ∃ b, test s = some b ∧ (b = true ↔ Accepted s)

/-- The search goes on with the words from number `s + 1` on. -/
def Passes (Accepted : Nat → Prop) (s : Nat) : Prop :=
  ¬ Stops cipherWordLengths cribWordLengths Accepted s ∧
    (FitsToEnd cipherWordLengths cribWordLengths s ∨
      cipherWordLengths[s]? ≠ cribWordLengths[0]? ∧ s < cribWordLengths.length)

/-- The search comes to the words from number `s` on. Word `i` of the crib is the first that
differs, and it is not the first word, or the crib has no word number `s`. -/
structure Slips (Accepted : Nat → Prop) (s i : Nat) : Prop where
  passed : ∀ t < s, Passes cipherWordLengths cribWordLengths Accepted t
  inCrib : i < cribWordLengths.length
  inCipher : s + i < cipherWordLengths.length
  agrees : ∀ k < i, cipherWordLengths[s + k]? = cribWordLengths[k]?
  differs : cipherWordLengths[s + i]? ≠ cribWordLengths[i]?
  late : 0 < i ∨ cribWordLengths.length ≤ s

/-- `searchWords` with any tests of a possible match. -/
def searchWith (test : Nat → Option Bool) : Nat → Nat → Nat → Int → Option (Option Nat)
  | 0, _, _, _ => none
  | fuel + 1, i, cipherPosIndex, matchCounter =>
      if i < cribWordLengths.length then do
        let (cipherPosIndex, matchCounter, found) ← scanWords cipherWordLengths cribWordLengths i
          (cipherWordLengths.length - cipherPosIndex) cipherPosIndex matchCounter
        if found ∧ matchCounter = 0 then do
          let startPos := cipherPosIndex - cribWordLengths.length
          let passes ← test startPos
          if passes then some (some startPos)
          else
            searchWith test fuel 0 (cipherPosIndex - (cribWordLengths.length - 1))
              cribWordLengths.length
        else searchWith test fuel (i + 1) cipherPosIndex matchCounter
      else some none

end Lengths

/-- The first number with a property, none if there is none. -/
def IsFirst (P : Nat → Prop) : Option Nat → Prop
  | some s => P s ∧ ∀ t < s, ¬ P t
  | none => ∀ s, ¬ P s

/-- Behind a number with the property, nothing matters. -/
theorem IsFirst.congr {P Q : Nat → Prop} {found : Option Nat} (h : IsFirst P found) {e : Nat}
    (he : P e) (hiff : ∀ s ≤ e, P s ↔ Q s) : IsFirst Q found := by
  cases found with
  | none => exact absurd he (h e)
  | some s =>
      have hs : s ≤ e := by
        by_contra hlt
        exact h.2 e (Nat.lt_of_not_le hlt) he
      exact ⟨(hiff s hs).1 h.1, fun t ht => mt (hiff t (by omega)).2 (h.2 t ht)⟩

section Phases

variable {cipherWordLengths cribWordLengths : List Int}

theorem searchWords_eq_searchWith (cipherWords : List (List Char)) (justCribLetters : List Char)
    (fuel i j : Nat) (matchCounter : Int) :
    searchWords cipherWordLengths cribWordLengths cipherWords justCribLetters fuel i j
        matchCounter =
      searchWith cipherWordLengths cribWordLengths
        (isMatch cribWordLengths cipherWords justCribLetters) fuel i j matchCounter := by
  induction fuel generalizing i j matchCounter with
  | zero => rfl
  | succ fuel ih =>
      rw [searchWords, searchWith]
      simp only [ih]

/-- A word of the right length is found at once. -/
theorem scanWords_found {i j : Nat} (hi : i < cribWordLengths.length)
    (hj : j < cipherWordLengths.length) (heq : cipherWordLengths[j]? = cribWordLengths[i]?)
    (matchCounter : Int) :
    scanWords cipherWordLengths cribWordLengths i (cipherWordLengths.length - j) j matchCounter =
      some (j + 1, matchCounter - 1, true) := by
  obtain ⟨rounds, hrounds⟩ := Nat.exists_eq_add_of_lt hj
  rw [show cipherWordLengths.length - j = rounds + 1 by omega, scanWords, heq,
    List.getElem?_eq_getElem hi]
  simp

/-- Behind a word of another length, the words that are compared have changed places. -/
theorem scanWords_differs {i j : Nat} (hi : i < cribWordLengths.length)
    (hj : j < cipherWordLengths.length) (hne : cipherWordLengths[j]? ≠ cribWordLengths[i]?)
    (matchCounter : Int) :
    scanWords cipherWordLengths cribWordLengths i (cipherWordLengths.length - j) j matchCounter =
      cipherWordLengths[i]?.bind fun cipherLength => cribWordLengths[j]?.bind fun cribLength =>
        scanWords cipherWordLengths cribWordLengths i (cipherWordLengths.length - (j + 1)) (j + 1)
          (if cipherLength ≠ cribLength then cribWordLengths.length else matchCounter) := by
  rw [List.getElem?_eq_getElem hj, List.getElem?_eq_getElem hi, Ne, Option.some_inj] at hne
  rw [show cipherWordLengths.length - j = cipherWordLengths.length - (j + 1) + 1 by omega,
    scanWords, List.getElem?_eq_getElem hj, List.getElem?_eq_getElem hi]
  simp only [Option.bind_eq_bind, Option.bind_some, if_neg hne]

variable (test : Nat → Option Bool)

/-- More rounds change nothing. -/
theorem searchWith_mono {fuel fuel' : Nat} (hle : fuel ≤ fuel') {i j : Nat} {matchCounter : Int}
    {found : Option Nat}
    (h : searchWith cipherWordLengths cribWordLengths test fuel i j matchCounter = some found) :
    searchWith cipherWordLengths cribWordLengths test fuel' i j matchCounter = some found := by
  induction fuel generalizing fuel' i j matchCounter with
  | zero => cases h
  | succ fuel ih =>
      obtain ⟨fuel', rfl⟩ := Nat.exists_eq_add_of_le' (Nat.zero_lt_of_lt hle)
      have hle' : fuel ≤ fuel' := Nat.le_of_succ_le_succ hle
      rw [searchWith] at h ⊢
      split at h
      case isTrue hi =>
        obtain ⟨⟨j', matchCounter', found'⟩, hscan, h⟩ := Option.bind_eq_some_iff.1 h
        rw [if_pos hi, hscan]
        simp only [Option.bind_eq_bind, Option.bind_some] at h ⊢
        split at h
        case isTrue hend =>
          obtain ⟨passes, htest, h⟩ := Option.bind_eq_some_iff.1 h
          rw [if_pos hend, htest, Option.bind_some]
          cases passes with
          | true => exact h
          | false => exact ih hle' h
        case isFalse hend =>
          rw [if_neg hend]
          exact ih hle' h
      case isFalse hi =>
        rw [if_neg hi]
        exact h

/-- The search goes through words that fit. -/
theorem searchWith_agrees {s i : Nat} (hi : i < cribWordLengths.length)
    (hle : s + i ≤ cipherWordLengths.length)
    (hagrees : ∀ k < i, cipherWordLengths[s + k]? = cribWordLengths[k]?) (fuel : Nat) :
    searchWith cipherWordLengths cribWordLengths test (fuel + i) 0 s cribWordLengths.length =
      searchWith cipherWordLengths cribWordLengths test fuel i (s + i)
        (cribWordLengths.length - i) := by
  induction i generalizing fuel with
  | zero => simp
  | succ i ih =>
      have hbefore := ih (Nat.lt_of_succ_lt hi) (by omega) (fun k hk => hagrees k (by omega))
        (fuel + 1)
      rw [show fuel + (i + 1) = fuel + 1 + i by omega, hbefore, searchWith,
        if_pos (Nat.lt_of_succ_lt hi),
        scanWords_found (Nat.lt_of_succ_lt hi) (by omega) (hagrees i (Nat.lt_succ_self i))]
      simp only [Option.bind_eq_bind, Option.bind_some, true_and]
      rw [if_neg (by omega), Nat.add_assoc, show (cribWordLengths.length : Int) - i - 1 =
        cribWordLengths.length - (i + 1 : Nat) by omega]

/-- Behind the last word the search ends. -/
theorem searchWith_behind {fuel i : Nat} (matchCounter : Int)
    (hfuel : cribWordLengths.length - i < fuel) :
    searchWith cipherWordLengths cribWordLengths test fuel i cipherWordLengths.length
      matchCounter = some none := by
  induction fuel generalizing i with
  | zero => omega
  | succ fuel ih =>
      rw [searchWith]
      split
      case isTrue hi =>
        rw [Nat.sub_self, scanWords]
        simp only [Option.bind_eq_bind, Option.bind_some, Bool.false_eq_true, false_and, if_false]
        exact ih (by omega)
      case isFalse => rfl

/-- A word that differs from the first word of the crib is passed over. -/
theorem searchWith_skip {s : Nat} (hs : s < cipherWordLengths.length)
    (hcrib : s < cribWordLengths.length) (hne : cipherWordLengths[s]? ≠ cribWordLengths[0]?)
    (fuel : Nat) :
    searchWith cipherWordLengths cribWordLengths test fuel 0 s cribWordLengths.length =
      searchWith cipherWordLengths cribWordLengths test fuel 0 (s + 1)
        cribWordLengths.length := by
  cases fuel with
  | zero => rfl
  | succ fuel =>
      rw [searchWith, searchWith, scanWords_differs (Nat.zero_lt_of_lt hcrib) hs hne,
        List.getElem?_eq_getElem (Nat.zero_lt_of_lt hs), List.getElem?_eq_getElem hcrib]
      simp only [Option.bind_some, ite_self]

/-- The words fit as far as there are words, but there are too few. -/
theorem searchWith_runsOut {s : Nat} (hs : s ≤ cipherWordLengths.length)
    (hfits : FitsToEnd cipherWordLengths cribWordLengths s)
    (hshort : cipherWordLengths.length < s + cribWordLengths.length) {fuel : Nat}
    (hfuel : cribWordLengths.length < fuel) :
    searchWith cipherWordLengths cribWordLengths test fuel 0 s cribWordLengths.length =
      some none := by
  obtain ⟨i, hi⟩ := Nat.exists_eq_add_of_le hs
  obtain ⟨fuel, rfl⟩ := Nat.exists_eq_add_of_le' (show i ≤ fuel by omega)
  rw [searchWith_agrees test (by omega) (Nat.le_of_eq hi.symm)
    (fun k hk => hfits k (by omega) (by omega)), ← hi]
  exact searchWith_behind test _ (by omega)

/-- The words fit, and are tested. -/
theorem searchWith_fits {s : Nat} (hpos : 0 < cribWordLengths.length)
    (hfits : FitsToEnd cipherWordLengths cribWordLengths s)
    (hle : s + cribWordLengths.length ≤ cipherWordLengths.length) (fuel : Nat) :
    searchWith cipherWordLengths cribWordLengths test (fuel + cribWordLengths.length) 0 s
        cribWordLengths.length =
      (test s).bind fun passes =>
        if passes then some (some s)
        else searchWith cipherWordLengths cribWordLengths test fuel 0 (s + 1)
          cribWordLengths.length := by
  obtain ⟨i, hi⟩ := Nat.exists_eq_add_of_le' hpos
  have hlast : i < cribWordLengths.length := by omega
  rw [show fuel + cribWordLengths.length = fuel + 1 + i by omega,
    searchWith_agrees test hlast (by omega) (fun k hk => hfits k (by omega) (by omega)), searchWith,
    if_pos hlast, scanWords_found hlast (by omega) (hfits i hlast (by omega))]
  simp only [Option.bind_eq_bind, Option.bind_some, true_and]
  rw [if_pos (by omega), show s + i + 1 - cribWordLengths.length = s by omega,
    show s + i + 1 - (cribWordLengths.length - 1) = s + 1 by omega]

end Phases

theorem exists_least {P : Nat → Prop} (h : ∃ s, P s) : ∃ s, P s ∧ ∀ t < s, ¬ P t := by
  classical
  exact ⟨Nat.find h, Nat.find_spec h, fun t ht => Nat.find_min h ht⟩

section Search

variable {cipherWordLengths cribWordLengths : List Int} {Accepted : Nat → Prop}

variable (cipherWordLengths Accepted) in
/-- The search comes to words where it ends, or to words of which one that is not the first
differs. -/
theorem exists_end (hpos : 0 < cribWordLengths.length) :
    ∃ s ≤ cipherWordLengths.length,
      (∀ t < s, Passes cipherWordLengths cribWordLengths Accepted t) ∧
        (Stops cipherWordLengths cribWordLengths Accepted s ∨
          ∃ i, Slips cipherWordLengths cribWordLengths Accepted s i) := by
  have hbehind : Stops cipherWordLengths cribWordLengths Accepted cipherWordLengths.length :=
    ⟨fun i _ hi => absurd hi (by omega), .inl (by omega)⟩
  obtain ⟨s, hspec, hbefore⟩ := exists_least
    (⟨_, fun h => h.1 hbehind⟩ : ∃ s, ¬ Passes cipherWordLengths cribWordLengths Accepted s)
  have hpassed : ∀ t < s, Passes cipherWordLengths cribWordLengths Accepted t :=
    fun t ht => not_not.1 (hbefore t ht)
  have hle : s ≤ cipherWordLengths.length := by
    by_contra hlt
    exact hbefore _ (Nat.lt_of_not_le hlt) fun h => h.1 hbehind
  refine ⟨s, hle, hpassed, or_iff_not_imp_left.2 fun hstops => ?_⟩
  rw [Passes, not_and, not_or, not_and, Nat.not_lt] at hspec
  obtain ⟨hfits, hlate⟩ := hspec hstops
  have hdiffers : ∃ i, i < cribWordLengths.length ∧ s + i < cipherWordLengths.length ∧
      cipherWordLengths[s + i]? ≠ cribWordLengths[i]? := by
    simpa only [FitsToEnd, not_forall, exists_prop] using hfits
  obtain ⟨i, ⟨hcrib, hcipher, hne⟩, hagrees⟩ := exists_least hdiffers
  refine ⟨i, hpassed, hcrib, hcipher, fun k hk => ?_, hne, ?_⟩
  · by_contra h
    exact hagrees k hk ⟨by omega, by omega, h⟩
  · rcases Nat.eq_zero_or_pos i with rfl | hi
    · exact .inr (hlate hne)
    · exact .inl hi

theorem Matches.stops {s : Nat} (h : Matches cipherWordLengths cribWordLengths Accepted s) :
    Stops cipherWordLengths cribWordLengths Accepted s :=
  ⟨h.2.1, .inr h.2.2⟩

theorem InStep.not_slips (h : InStep cipherWordLengths cribWordLengths Accepted) (s i : Nat) :
    ¬ Slips cipherWordLengths cribWordLengths Accepted s i := by
  intro hslip
  have hs : s < cipherWordLengths.length := Nat.lt_of_le_of_lt (Nat.le_add_right s i)
    hslip.inCipher
  rcases h s hs fun t ht => (hslip.passed t ht).1 with hfits | ⟨hne, hcrib⟩
  · exact hslip.differs (hfits i hslip.inCrib hslip.inCipher)
  · rcases hslip.late with hi | hlate
    · exact hne (hslip.agrees 0 hi)
    · exact absurd hcrib (Nat.not_lt.2 hlate)

/-- A search that comes to its end is in step. -/
theorem inStep_of_stops {s : Nat}
    (hpassed : ∀ t < s, Passes cipherWordLengths cribWordLengths Accepted t)
    (h : Stops cipherWordLengths cribWordLengths Accepted s) :
    InStep cipherWordLengths cribWordLengths Accepted := by
  intro t _ hbefore
  rcases Nat.lt_trichotomy t s with hlt | rfl | hgt
  · exact (hpassed t hlt).2
  · exact .inl h.1
  · exact absurd h (hbefore s hgt)

section Congruence

variable {otherWordLengths : List Int} {m : Nat}
  (hlength : otherWordLengths.length = cipherWordLengths.length)
  (htake : otherWordLengths.take m = cipherWordLengths.take m)

include hlength htake

/-- The lengths of the first `m` words decide if words among them fit. -/
theorem fitsToEnd_congr {s : Nat} (hle : s + cribWordLengths.length ≤ m) :
    FitsToEnd otherWordLengths cribWordLengths s ↔
      FitsToEnd cipherWordLengths cribWordLengths s := by
  rw [FitsToEnd, FitsToEnd, hlength]
  refine forall₂_congr fun i hi => ?_
  rw [← List.getElem?_take_of_lt (show s + i < m by omega), htake,
    List.getElem?_take_of_lt (by omega)]

theorem stops_congr {s : Nat} (hle : s + cribWordLengths.length ≤ m) :
    Stops otherWordLengths cribWordLengths Accepted s ↔
      Stops cipherWordLengths cribWordLengths Accepted s := by
  rw [Stops, Stops, fitsToEnd_congr hlength htake hle, hlength]

theorem matches_congr {s : Nat} (hle : s + cribWordLengths.length ≤ m) :
    Matches otherWordLengths cribWordLengths Accepted s ↔
      Matches cipherWordLengths cribWordLengths Accepted s := by
  rw [Matches, Matches, fitsToEnd_congr hlength htake hle, hlength]

/-- A search that is in step does not look behind the words where it ends. -/
theorem InStep.congr (h : InStep cipherWordLengths cribWordLengths Accepted) {e : Nat}
    (hm : e + cribWordLengths.length = m)
    (hend : Stops cipherWordLengths cribWordLengths Accepted e) :
    InStep otherWordLengths cribWordLengths Accepted := by
  intro s hs hbefore
  have hse : s ≤ e := by
    by_contra hlt
    exact hbefore e (Nat.lt_of_not_le hlt) ((stops_congr hlength htake (Nat.le_of_eq hm)).2 hend)
  have hle {t : Nat} (ht : t ≤ s) : t + cribWordLengths.length ≤ m := by omega
  rw [fitsToEnd_congr hlength htake (hle (Nat.le_refl s))]
  have hstep := h s (hlength ▸ hs) fun t ht hstop =>
    hbefore t ht ((stops_congr hlength htake (hle (Nat.le_of_lt ht))).2 hstop)
  refine hstep.imp_right fun ⟨hne, hcrib⟩ => ⟨?_, hcrib⟩
  rwa [← List.getElem?_take_of_lt (show s < m by omega), htake,
    List.getElem?_take_of_lt (by omega)]

theorem Decides.congr {test : Nat → Option Bool}
    (h : Decides cipherWordLengths cribWordLengths Accepted test) {e : Nat}
    (hm : e + cribWordLengths.length = m)
    (hend : Matches cipherWordLengths cribWordLengths Accepted e) :
    Decides otherWordLengths cribWordLengths Accepted test := by
  intro s hbefore hle hfits
  have hse : s ≤ e := by
    by_contra hlt
    exact hbefore e (Nat.lt_of_not_le hlt) ((matches_congr hlength htake (Nat.le_of_eq hm)).2 hend)
  refine h s (fun t ht hmatch => hbefore t ht ?_) (hlength ▸ hle) ?_
  · exact (matches_congr hlength htake (by omega)).2 hmatch
  · exact (fitsToEnd_congr hlength htake (by omega)).1 hfits

end Congruence

variable {test : Nat → Option Bool}

theorem searchWith_passes (hpos : 0 < cribWordLengths.length)
    (htest : Decides cipherWordLengths cribWordLengths Accepted test)
    {s : Nat} (hs : s < cipherWordLengths.length)
    (hbefore : ∀ t < s, Passes cipherWordLengths cribWordLengths Accepted t)
    (h : Passes cipherWordLengths cribWordLengths Accepted s) (fuel : Nat) :
    ∃ fuel' ≥ fuel,
      searchWith cipherWordLengths cribWordLengths test (fuel + cribWordLengths.length) 0 s
          cribWordLengths.length =
        searchWith cipherWordLengths cribWordLengths test fuel' 0 (s + 1)
          cribWordLengths.length := by
  obtain ⟨hgo, hfits | ⟨hne, hcrib⟩⟩ := h
  · have hle : s + cribWordLengths.length ≤ cipherWordLengths.length := by
      by_contra hshort
      exact hgo ⟨hfits, .inl (Nat.lt_of_not_le hshort)⟩
    obtain ⟨b, hb, hiff⟩ := htest s (fun t ht => mt Matches.stops (hbefore t ht).1) hle hfits
    have hrejected : b = false := by
      rw [← Bool.not_eq_true, hiff]
      exact fun h => hgo ⟨hfits, .inr h⟩
    refine ⟨fuel, Nat.le_refl fuel, ?_⟩
    rw [searchWith_fits test hpos hfits hle, hb, hrejected]
    rfl
  · exact ⟨_, Nat.le_add_right _ _, searchWith_skip test hs hcrib hne _⟩

/-- The search comes to the words from number `s` on, by induction on `s`. -/
theorem searchWith_reaches (hpos : 0 < cribWordLengths.length)
    (htest : Decides cipherWordLengths cribWordLengths Accepted test)
    {s : Nat} (hs : s ≤ cipherWordLengths.length)
    (hpassed : ∀ t < s, Passes cipherWordLengths cribWordLengths Accepted t) (fuel : Nat) :
    ∃ fuel' ≥ fuel,
      searchWith cipherWordLengths cribWordLengths test (fuel + s * cribWordLengths.length) 0 0
          cribWordLengths.length =
        searchWith cipherWordLengths cribWordLengths test fuel' 0 s cribWordLengths.length := by
  induction s generalizing fuel with
  | zero => exact ⟨fuel, Nat.le_refl fuel, by rw [Nat.zero_mul, Nat.add_zero]⟩
  | succ s ih =>
      have hearlier (t : Nat) (ht : t < s) :
          Passes cipherWordLengths cribWordLengths Accepted t := hpassed t (Nat.lt_succ_of_lt ht)
      obtain ⟨fuel', hfuel', hbefore⟩ := ih (Nat.le_of_succ_le hs) hearlier
        (fuel + cribWordLengths.length)
      obtain ⟨more, rfl⟩ := Nat.exists_eq_add_of_le' hfuel'
      obtain ⟨last, hlast, hpasses⟩ := searchWith_passes hpos htest hs hearlier
        (hpassed s (Nat.lt_succ_self s)) (more + fuel)
      refine ⟨last, Nat.le_trans (Nat.le_add_left fuel more) hlast, ?_⟩
      rw [Nat.succ_mul, Nat.add_comm (s * cribWordLengths.length), ← Nat.add_assoc, hbefore,
        ← Nat.add_assoc, hpasses]

/-- Where the search ends, it returns the first match. -/
theorem searchWith_stops (hpos : 0 < cribWordLengths.length)
    (htest : Decides cipherWordLengths cribWordLengths Accepted test)
    {s : Nat} (hs : s ≤ cipherWordLengths.length)
    (hpassed : ∀ t < s, Passes cipherWordLengths cribWordLengths Accepted t)
    (h : Stops cipherWordLengths cribWordLengths Accepted s) {fuel : Nat}
    (hfuel : s * cribWordLengths.length + cribWordLengths.length < fuel) :
    ∃ found, searchWith cipherWordLengths cribWordLengths test fuel 0 0
        cribWordLengths.length = some found ∧
      IsFirst (Matches cipherWordLengths cribWordLengths Accepted) found := by
  have hbefore (t : Nat) (ht : t < s) : ¬ Matches cipherWordLengths cribWordLengths Accepted t :=
    fun hmatch => (hpassed t ht).1 hmatch.stops
  obtain ⟨hfits, hstop⟩ := h
  obtain ⟨last, hlast⟩ := Nat.exists_eq_add_of_le' (show s * cribWordLengths.length ≤ fuel by omega)
  obtain ⟨fuel', hfuel', hreaches⟩ := searchWith_reaches hpos htest hs hpassed last
  rw [hlast, hreaches]
  by_cases hshort : cipherWordLengths.length < s + cribWordLengths.length
  · refine ⟨none, searchWith_runsOut test hs hfits hshort (by omega), fun t hmatch => ?_⟩
    have hle := hmatch.1
    exact hbefore t (by omega) hmatch
  · have haccepted := hstop.resolve_left hshort
    obtain ⟨b, hb, hiff⟩ := htest s hbefore (Nat.le_of_not_lt hshort) hfits
    obtain ⟨fuel'', rfl⟩ := Nat.exists_eq_add_of_le' (show cribWordLengths.length ≤ fuel' by omega)
    refine ⟨some s, ?_, ⟨Nat.le_of_not_lt hshort, hfits, haccepted⟩, hbefore⟩
    rw [searchWith_fits test hpos hfits (Nat.le_of_not_lt hshort), hb, hiff.2 haccepted]
    rfl

/-- A search in step finds the first match. -/
theorem searchWith_eq (hpos : 0 < cribWordLengths.length)
    (htest : Decides cipherWordLengths cribWordLengths Accepted test)
    (hstep : InStep cipherWordLengths cribWordLengths Accepted) {fuel : Nat}
    (hfuel : cipherWordLengths.length * cribWordLengths.length + cribWordLengths.length < fuel) :
    ∃ found, searchWith cipherWordLengths cribWordLengths test fuel 0 0
        cribWordLengths.length = some found ∧
      IsFirst (Matches cipherWordLengths cribWordLengths Accepted) found := by
  obtain ⟨s, hs, hpassed, hend⟩ := exists_end cipherWordLengths Accepted hpos
  have hstop := hend.resolve_right fun ⟨i, hslip⟩ => hstep.not_slips s i hslip
  have hrounds : s * cribWordLengths.length ≤ cipherWordLengths.length * cribWordLengths.length :=
    Nat.mul_le_mul_right _ hs
  exact searchWith_stops hpos htest hs hpassed hstop (by omega)

variable {memoryLengths : List Int}

/-- A search in step finds the first match, whatever the lengths behind it are taken for. -/
theorem searchWords_eq {cipherWords : List (List Char)} {justCribLetters : List Char}
    (hpos : 0 < cribWordLengths.length)
    (htest : Decides cipherWordLengths cribWordLengths Accepted
      (isMatch cribWordLengths cipherWords justCribLetters))
    (hstep : InStep cipherWordLengths cribWordLengths Accepted)
    (hlength : memoryLengths.length = cipherWordLengths.length)
    (hagrees : ∀ k, (∀ s, s + cribWordLengths.length ≤ k →
        ¬ Matches cipherWordLengths cribWordLengths Accepted s) →
      memoryLengths[k]? = cipherWordLengths[k]?) :
    ∃ found, searchWords memoryLengths cribWordLengths cipherWords justCribLetters
        ((memoryLengths.length + 1) * (cribWordLengths.length + 1)) 0 0
        cribWordLengths.length = some found ∧
      IsFirst (Matches cipherWordLengths cribWordLengths Accepted) found := by
  have hfuel : memoryLengths.length * cribWordLengths.length + cribWordLengths.length <
      (memoryLengths.length + 1) * (cribWordLengths.length + 1) := by
    rw [Nat.add_mul, Nat.mul_add]
    omega
  rw [searchWords_eq_searchWith]
  by_cases hmatch : ∃ s, Matches cipherWordLengths cribWordLengths Accepted s
  · obtain ⟨e, he, hfirst⟩ := exists_least hmatch
    have htake : memoryLengths.take (e + cribWordLengths.length) =
        cipherWordLengths.take (e + cribWordLengths.length) := by
      refine List.ext_getElem? fun k => ?_
      rw [List.getElem?_take, List.getElem?_take]
      split
      case isTrue hk => exact hagrees k fun s hs => hfirst s (by omega)
      case isFalse => rfl
    obtain ⟨found, hfound, hisFirst⟩ := searchWith_eq hpos
      (htest.congr hlength htake rfl he) (hstep.congr hlength htake rfl he.stops) hfuel
    have hiff (s : Nat) (hs : s ≤ e) : Matches memoryLengths cribWordLengths Accepted s ↔
        Matches cipherWordLengths cribWordLengths Accepted s :=
      matches_congr hlength htake (Nat.add_le_add_right hs _)
    exact ⟨found, hfound, hisFirst.congr ((hiff e (Nat.le_refl e)).2 he) hiff⟩
  · obtain rfl : memoryLengths = cipherWordLengths :=
      List.ext_getElem? fun k => hagrees k fun s _ hs => hmatch ⟨s, hs⟩
    exact searchWith_eq hpos htest hstep hfuel

end Search

end Coursework.Decrypt
