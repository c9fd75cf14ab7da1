import Mathlib.Data.List.Induction

/-!
# A pair of curly brackets

`curlyFries` of `recursion.cpp`; the brackets are `\x7b` and `\x7d`. A character read outside its
string and a `pop_back` of an empty string are `none`. The recursion goes down to the empty string
and handles the characters on its way back, so it is a fold over the string
(`curlyFries_eq_foldlM`), whose state is the result with an asterisk at its end while the brackets
are open. The asterisk is looked for at every other character, also when the result is still
empty: `curlyFries_right_iff`.
-/

namespace Coursework.Brackets

/-- `str[i]`: the characters of the string and the null character behind them. -/
def charAt (str : List Char) (i : Int) : Option Char :=
  if i = str.length then some '\x00'
  else if 0 ≤ i then str[i.toNat]?
  else none

/-- `pop_back`. -/
def popBack (str : List Char) : Option (List Char) :=
  if str = [] then none else some str.dropLast

/-- What `curlyFries` does with a character when the string ahead of it has been handled. -/
def extend (returned : List Char) (savedChar : Char) : Option (List Char) :=
  if savedChar = '\x7b' then some (returned ++ ['\x7b', '*'])
  else if savedChar = '\x7d' then do
    let returned ← popBack returned
    some (returned ++ ['\x7d'])
  else do
    let last ← charAt returned (returned.length - 1)
    if last = '*' then do
      let returned ← popBack returned
      some (returned ++ [savedChar] ++ ['*'])
    else some returned

/-- `curlyFries`. -/
def curlyFries (str : List Char) : Option (List Char) :=
  if h : str = [] then some []
  else do
    let returned ← curlyFries str.dropLast
    extend returned (str.getLast h)
termination_by str.length
decreasing_by
  have hpos := List.length_pos_iff.2 h
  rw [List.length_dropLast]
  omega

/-- The result for a string of these three parts around its brackets. -/
def Right (p m q : List Char) : Prop :=
  curlyFries (p ++ '\x7b' :: (m ++ '\x7d' :: q)) = some ('\x7b' :: (m ++ ['\x7d']))

/-- A string without curly brackets. -/
def NoBrackets (str : List Char) : Prop :=
  '\x7b' ∉ str ∧ '\x7d' ∉ str

variable {str front : List Char} {c : Char}

theorem NoBrackets.cons (h : NoBrackets (c :: str)) :
    (c ≠ '\x7b' ∧ c ≠ '\x7d') ∧ NoBrackets str := by
  obtain ⟨hopen, hclose⟩ := h
  rw [List.mem_cons, not_or] at hopen hclose
  exact ⟨⟨Ne.symm hopen.1, Ne.symm hclose.1⟩, hopen.2, hclose.2⟩

/-! ## One character -/

/-- The last character of a string that is not empty. -/
theorem charAt_last (front : List Char) (c : Char) :
    charAt (front ++ [c]) ((front ++ [c]).length - 1) = some c := by
  have hindex : ((front ++ [c]).length : Int) - 1 = front.length := by
    rw [List.length_append, List.length_singleton]
    omega
  have hne : (front.length : Int) ≠ (front ++ [c]).length := by
    rw [List.length_append, List.length_singleton]
    omega
  rw [hindex, charAt, if_neg hne, if_pos (by omega), Int.toNat_natCast, List.getElem?_concat_length]

theorem popBack_concat (front : List Char) (c : Char) : popBack (front ++ [c]) = some front := by
  rw [popBack, if_neg (by simp), List.dropLast_concat]

/-- The index of the last character of an empty string is out of bounds. -/
theorem extend_nil (hopen : c ≠ '\x7b') (hclose : c ≠ '\x7d') : extend [] c = none := by
  rw [extend, if_neg hopen, if_neg hclose]
  rfl

/-- Between the brackets a character is put ahead of the asterisk. -/
theorem extend_inside (front : List Char) (hopen : c ≠ '\x7b') (hclose : c ≠ '\x7d') :
    extend (front ++ ['*']) c = some (front ++ [c] ++ ['*']) := by
  rw [extend, if_neg hopen, if_neg hclose, charAt_last]
  simp only [Option.bind_eq_bind, Option.bind_some, if_true, popBack_concat]

/-- Behind the brackets a character is dropped. -/
theorem extend_behind (front : List Char) (hopen : c ≠ '\x7b') (hclose : c ≠ '\x7d') :
    extend (front ++ ['\x7d']) c = some (front ++ ['\x7d']) := by
  rw [extend, if_neg hopen, if_neg hclose, charAt_last]
  rfl

/-! ## A whole string -/

/-- The recursion handles the characters from the first to the last one. -/
theorem curlyFries_eq_foldlM (str : List Char) : curlyFries str = str.foldlM extend [] := by
  induction str using List.reverseRecOn with
  | nil =>
      rw [curlyFries, dif_pos rfl]
      rfl
  | append_singleton str c ih =>
      rw [curlyFries, dif_neg (by simp), List.dropLast_concat, List.getLast_concat, ih,
        List.foldlM_append]
      cases str.foldlM extend [] with
      | none => rfl
      | some returned =>
          show extend returned c = [c].foldlM extend returned
          rw [List.foldlM_cons]
          cases extend returned c <;> rfl

/-- The text between the brackets is collected, asterisks included. -/
theorem foldlM_inside (m : List Char) (h : NoBrackets m) (front : List Char) :
    m.foldlM extend (front ++ ['*']) = some (front ++ m ++ ['*']) := by
  induction m generalizing front with
  | nil => simp
  | cons c m ih =>
      obtain ⟨⟨hopen, hclose⟩, hrest⟩ := h.cons
      rw [List.foldlM_cons, extend_inside front hopen hclose]
      show m.foldlM extend (front ++ [c] ++ ['*']) = _
      rw [ih hrest, List.append_assoc front [c] m, List.singleton_append]

/-- The text behind the brackets is dropped. -/
theorem foldlM_behind (q : List Char) (h : NoBrackets q) (front : List Char) :
    q.foldlM extend (front ++ ['\x7d']) = some (front ++ ['\x7d']) := by
  induction q with
  | nil => rfl
  | cons c q ih =>
      obtain ⟨⟨hopen, hclose⟩, hrest⟩ := h.cons
      rw [List.foldlM_cons, extend_behind front hopen hclose]
      exact ih hrest

/-- From the opening bracket on the result is right. -/
theorem right_nil {m q : List Char} (hm : NoBrackets m) (hq : NoBrackets q) : Right [] m q := by
  have hopen : extend [] '\x7b' = some (['\x7b'] ++ ['*']) := rfl
  have hclose : extend (['\x7b'] ++ m ++ ['*']) '\x7d' = some (['\x7b'] ++ m ++ ['\x7d']) := by
    show (popBack (['\x7b'] ++ m ++ ['*'])).bind (fun returned => some (returned ++ ['\x7d'])) = _
    rw [popBack_concat]
    rfl
  rw [Right, curlyFries_eq_foldlM, List.nil_append, List.foldlM_cons, hopen]
  show (m ++ '\x7d' :: q).foldlM extend (['\x7b'] ++ ['*']) = _
  rw [List.foldlM_append, foldlM_inside m hm]
  show ('\x7d' :: q).foldlM extend (['\x7b'] ++ m ++ ['*']) = _
  rw [List.foldlM_cons, hclose]
  exact foldlM_behind q hq _

/-- A character ahead of the brackets is read when nothing has been returned. -/
theorem curlyFries_eq_none (hopen : c ≠ '\x7b') (hclose : c ≠ '\x7d') (str : List Char) :
    curlyFries (c :: str) = none := by
  rw [curlyFries_eq_foldlM, List.foldlM_cons, extend_nil hopen hclose]
  rfl

/-- Exactly the strings that begin with the opening bracket are handled. -/
theorem curlyFries_right_iff {p m q : List Char} (hp : NoBrackets p) (hm : NoBrackets m)
    (hq : NoBrackets q) : Right p m q ↔ p = [] := by
  constructor
  · intro hright
    cases p with
    | nil => rfl
    | cons c p =>
        obtain ⟨⟨hopen, hclose⟩, -⟩ := hp.cons
        rw [Right, List.cons_append, curlyFries_eq_none hopen hclose] at hright
        cases hright
  · rintro rfl
    exact right_nil hm hq

/-- The second of the documented calls. -/
theorem second_documented_right : Right [] ['x'] ['7'] :=
  (curlyFries_right_iff (by simp [NoBrackets]) (by simp [NoBrackets]) (by simp [NoBrackets])).2 rfl

/-- The first of them reads a character of an empty string. -/
theorem first_documented_not_right :
    (NoBrackets ['a', 'b', 'c'] ∧ NoBrackets ['g', 'h', 'j'] ∧ NoBrackets ['7', '8', '9']) ∧
      ¬ Right ['a', 'b', 'c'] ['g', 'h', 'j'] ['7', '8', '9'] := by
  refine ⟨by simp [NoBrackets], fun hright => ?_⟩
  rw [Right, List.cons_append, curlyFries_eq_none (by decide) (by decide)] at hright
  cases hright

end Coursework.Brackets
