import Mathlib.Data.List.TakeWhile

/-!
# Python text

Strings as character lists, with `split`, slices, `int()` and `str()` as Python has them for
ASCII text. `int()` strips white space, accepts a sign and single underscores between
digits, and has no value on any other text.
-/

namespace Coursework.Python

/-- A Python string. -/
abbrev Text := List Char

/-- `text.split(sep)` for a separator of one character. -/
def split (sep : Char) (text : Text) : List Text :=
  text.splitOn sep

/-- `text[start:stop]` for indices that are not negative. -/
def slice {α : Type} (start stop : Nat) (items : List α) : List α :=
  (items.take stop).drop start

/-- The characters `int()` strips. -/
def IsSpace (c : Char) : Bool :=
  c = ' ' || (9 ≤ c.toNat && c.toNat ≤ 13) || (28 ≤ c.toNat && c.toNat ≤ 31)

/-- `text.strip()`. -/
def strip (text : Text) : Text :=
  ((text.dropWhile IsSpace).reverse.dropWhile IsSpace).reverse

/-- The value of a decimal digit. -/
def digitValue (c : Char) : Nat :=
  c.toNat - '0'.toNat

/-- The digits after a first one, with single underscores between them. -/
def digitsFrom (value : Nat) : Text → Option Nat
  | [] => some value
  | '_' :: c :: rest => if c.isDigit then digitsFrom (10 * value + digitValue c) rest else none
  | c :: rest => if c.isDigit then digitsFrom (10 * value + digitValue c) rest else none

/-- An unsigned decimal number. -/
def natural : Text → Option Nat
  | [] => none
  | c :: rest => if c.isDigit then digitsFrom (digitValue c) rest else none

/-- `int(text)`; `none` is a `ValueError`. -/
def int (text : Text) : Option Int :=
  match strip text with
  | '-' :: rest => (natural rest).map fun n : Nat => -(n : Int)
  | '+' :: rest => (natural rest).map fun n : Nat => (n : Int)
  | rest => (natural rest).map fun n : Nat => (n : Int)

/-- `str(n)`. -/
def str (n : Int) : Text :=
  if n < 0 then '-' :: Nat.toDigits 10 n.natAbs else Nat.toDigits 10 n.natAbs

example : int " -1_2\n".toList = some (-12) := by decide

/-! ## Numbers and their texts -/

/-- Texts that start with neither space nor end with one are not stripped. -/
theorem strip_eq_self {text : Text} (h : ∀ c ∈ text, ¬ IsSpace c) : strip text = text := by
  have hfront : ∀ text : Text, (∀ c ∈ text, ¬ IsSpace c) → text.dropWhile IsSpace = text := by
    intro text htext
    cases text with
    | nil => rfl
    | cons c rest => simp [htext c List.mem_cons_self]
  rw [strip, hfront text h, hfront _ fun c hc => h c (List.mem_reverse.1 hc), List.reverse_reverse]

/-- Only spaces are stripped. -/
theorem mem_strip {text : Text} {c : Char} (h : c ∈ text) (hspace : ¬ IsSpace c) :
    c ∈ strip text := by
  have hfront : ∀ text : Text, c ∈ text → c ∈ text.dropWhile IsSpace := by
    intro text hmem
    rw [← List.takeWhile_append_dropWhile (p := IsSpace) (l := text), List.mem_append] at hmem
    refine hmem.resolve_left fun htake => hspace ?_
    exact List.mem_takeWhile_imp htake
  exact List.mem_reverse.2 (hfront _ (List.mem_reverse.2 (hfront text h)))

/-- The value of a text of digits. -/
theorem digitsFrom_eq {text : Text} (h : ∀ c ∈ text, c.isDigit) (value : Nat) :
    digitsFrom value text = some (Nat.ofDigitChars 10 text value) := by
  induction text generalizing value with
  | nil => simp [digitsFrom]
  | cons c rest ih =>
      have hc := h c List.mem_cons_self
      have hrest := ih fun d hd => h d (List.mem_cons_of_mem _ hd)
      rw [digitsFrom, if_pos hc, hrest, Nat.ofDigitChars_cons, digitValue]
      rintro _ _ rfl -
      cases hc

/-- The digits after a first one are digits and underscores. -/
theorem isDigit_of_digitsFrom {text : Text} {value n : Nat} (h : digitsFrom value text = some n) :
    ∀ c ∈ text, c = '_' ∨ c.isDigit := by
  induction value, text using digitsFrom.induct with
  | case1 value => simp
  | case2 value d rest hd ih =>
      rw [digitsFrom, if_pos hd] at h
      exact List.forall_mem_cons.2 ⟨.inl rfl, List.forall_mem_cons.2 ⟨.inr hd, ih h⟩⟩
  | case3 value d rest hd =>
      rw [digitsFrom, if_neg hd] at h
      cases h
  | case4 value d rest hnot hd ih =>
      rw [digitsFrom.eq_3 _ _ _ hnot, if_pos hd] at h
      exact List.forall_mem_cons.2 ⟨.inr hd, ih h⟩
  | case5 value d rest hnot hd =>
      rw [digitsFrom.eq_3 _ _ _ hnot, if_neg hd] at h
      cases h

/-- A number without sign consists of digits and underscores. -/
theorem isDigit_of_natural {text : Text} {n : Nat} (h : natural text = some n) :
    ∀ c ∈ text, c = '_' ∨ c.isDigit := by
  cases text with
  | nil => simp
  | cons d rest =>
      by_cases hd : d.isDigit
      · rw [natural, if_pos hd] at h
        exact List.forall_mem_cons.2 ⟨.inr hd, isDigit_of_digitsFrom h⟩
      · rw [natural, if_neg hd] at h
        cases h

/-- A text with any other character is no number. -/
theorem int_eq_none_of_mem {text : Text} {c : Char} (hmem : c ∈ text)
    (hc : ¬ IsSpace c ∧ c ≠ '-' ∧ c ≠ '+' ∧ c ≠ '_' ∧ ¬ c.isDigit) : int text = none := by
  obtain ⟨hspace, hminus, hplus, hunderscore, hdigit⟩ := hc
  have hnatural : ∀ rest, c ∈ rest → natural rest = none := by
    intro rest hrest
    by_contra hsome
    obtain ⟨n, hn⟩ := Option.ne_none_iff_exists'.1 hsome
    exact (isDigit_of_natural hn c hrest).elim hunderscore hdigit
  have hstrip := mem_strip hmem hspace
  unfold int
  split
  · next rest heq =>
      rw [hnatural rest ((List.mem_cons.1 (heq ▸ hstrip)).resolve_left hminus), Option.map_none]
  · next rest heq =>
      rw [hnatural rest ((List.mem_cons.1 (heq ▸ hstrip)).resolve_left hplus), Option.map_none]
  · rw [hnatural _ hstrip, Option.map_none]

/-- The digits of a number read as that number. -/
theorem natural_toDigits (n : Nat) : natural (Nat.toDigits 10 n) = some n := by
  have hdigits : ∀ c ∈ Nat.toDigits 10 n, c.isDigit :=
    fun c => Nat.isDigit_of_mem_toDigits (by decide) (by decide)
  have hvalue := Nat.ofDigitChars_ten_toDigits (n := n)
  cases h : Nat.toDigits 10 n with
  | nil => exact (Nat.toDigits_ne_nil h).elim
  | cons c rest =>
      rw [h] at hdigits hvalue
      obtain ⟨hc, hrest⟩ := List.forall_mem_cons.1 hdigits
      rw [natural, if_pos hc, digitsFrom_eq hrest, ← hvalue, Nat.ofDigitChars_cons, digitValue,
        Nat.mul_zero, Nat.zero_add]

/-- A digit is no space. -/
theorem not_isSpace_of_isDigit {c : Char} (h : c.isDigit) : ¬ IsSpace c := by
  rw [Char.isDigit_iff_toNat, show '0'.toNat = 48 from rfl] at h
  have hblank : c ≠ ' ' := by
    rintro rfl
    exact absurd h (by decide)
  simp only [IsSpace, hblank, decide_false, Bool.false_or, Bool.or_eq_true, Bool.and_eq_true,
    decide_eq_true_eq]
  omega

/-- `int` reads what `str` prints. -/
theorem int_str (n : Int) : int (str n) = some n := by
  have hdigits : ∀ c ∈ Nat.toDigits 10 n.natAbs, c.isDigit :=
    fun c => Nat.isDigit_of_mem_toDigits (by decide) (by decide)
  have hspaces : ∀ c ∈ str n, ¬ IsSpace c := by
    intro c hc
    unfold str at hc
    split at hc
    · rcases List.mem_cons.1 hc with rfl | hc
      · decide
      · exact not_isSpace_of_isDigit (hdigits c hc)
    · exact not_isSpace_of_isDigit (hdigits c hc)
  unfold int
  rw [strip_eq_self hspaces, str]
  by_cases hneg : n < 0
  · rw [if_pos hneg]
    simp only [natural_toDigits, Option.map_some]
    congr 1
    omega
  · rw [if_neg hneg]
    have hsign : ∀ sign rest, Nat.toDigits 10 n.natAbs = sign :: rest → sign.isDigit :=
      fun sign rest heq => hdigits sign (heq ▸ List.mem_cons_self)
    split
    · next heq => exact absurd (hsign _ _ heq) (by decide)
    · next heq => exact absurd (hsign _ _ heq) (by decide)
    · rw [natural_toDigits, Option.map_some]
      congr 1
      omega

end Coursework.Python
