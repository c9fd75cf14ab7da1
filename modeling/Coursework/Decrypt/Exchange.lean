import Coursework.Decrypt.Matches
import Coursework.Decrypt.Substitution

/-!
# The exchange of the letters

`exchangeLetters` overwrites the text in place, and compares a letter that it has made lower-case
again. `exchangeText_exchanges` says that it nevertheless exchanges all letters at once, each one
as it was at the start. `exchangeMatch_exchanges` is about the text that `decrypt` prints.
Vocabulary and scope: `Coursework.Decrypt.Substitution` and `Coursework.Decrypt.Matches`.
-/

namespace Coursework.Decrypt

/-- The letters of the key, in pairs: a letter of the ciphertext, in either case, and the letter of
the crib that it stands for. -/
structure Key where
  pairs : List (Char × Char)
  nonempty : pairs ≠ []
  isAlpha : ∀ p ∈ pairs, p.1.isAlpha = true
  isUpper : ∀ p ∈ pairs, p.2.isUpper = true
  functional : ∀ p ∈ pairs, ∀ q ∈ pairs, p.1.toUpper = q.1.toUpper → p.2 = q.2

namespace Key

variable (key : Key)

def cipherJustLetters : List Char :=
  key.pairs.map Prod.fst

def cribJustLetters : List Char :=
  key.pairs.map Prod.snd

/-- What becomes of a character: the letter of the crib, a small letter, or the character itself. -/
structure Exchanges (c d : Char) : Prop where
  paired : c.isAlpha = true → ∀ p ∈ key.pairs, p.1.toUpper = c.toUpper → d = p.2
  unpaired : c.isAlpha = true → (∀ p ∈ key.pairs, p.1.toUpper ≠ c.toUpper) → d = c.toLower
  other : c.isAlpha = false → d = c

end Key

section InPlace

variable (cipherJustLetters cribJustLetters : List Char)

/-- The loop of `exchangeLetters` over the letters of the key, at a place of the text. -/
def exchangeAt (k : Nat) : Nat → Nat → List Char → Option (List Char)
  | 0, _, dupCipherText => some dupCipherText
  | rounds + 1, j, dupCipherText => do
      let c ← dupCipherText[k]?
      let letter ← cipherJustLetters[j]?
      if c.toUpper = letter.toUpper then do
        let cribLetter ← cribJustLetters[j]?
        some (dupCipherText.set k cribLetter)
      else exchangeAt k rounds (j + 1) (dupCipherText.set k c.toLower)

/-- The loop over the text, which is overwritten in place. -/
def exchangeText (len : Nat) : Nat → Nat → List Char → Option (List Char)
  | 0, _, dupCipherText => some dupCipherText
  | rounds + 1, k, dupCipherText => do
      let c ← dupCipherText[k]?
      let dupCipherText ←
        if c.isAlpha then exchangeAt cipherJustLetters cribJustLetters k len 0 dupCipherText
        else some dupCipherText
      exchangeText len rounds (k + 1) dupCipherText

variable {cipherJustLetters cribJustLetters}

/-- The loop over the key changes nothing else. -/
theorem exchangeAt_eq (front back : List Char) (rounds j : Nat) (c : Char) :
    exchangeAt cipherJustLetters cribJustLetters front.length rounds j (front ++ c :: back) =
      (exchangeLetter cipherJustLetters cribJustLetters rounds j c).map
        fun d => front ++ d :: back := by
  induction rounds generalizing j c with
  | zero => rfl
  | succ rounds ih =>
      have hset (d : Char) : (front ++ c :: back).set front.length d = front ++ d :: back := by
        simp
      have hget : (front ++ c :: back)[front.length]? = some c := by simp
      rw [exchangeAt, exchangeLetter, hget]
      simp only [Option.bind_eq_bind, Option.bind_some, hset, ih]
      cases cipherJustLetters[j]? with
      | none => rfl
      | some letter =>
          simp only [Option.bind_some]
          split
          · cases cribJustLetters[j]? <;> rfl
          · rfl

theorem exchangeLetters_cons (c : Char) (l : List Char) (len : Nat) :
    exchangeLetters cipherJustLetters cribJustLetters (c :: l) len =
      (if c.isAlpha then exchangeLetter cipherJustLetters cribJustLetters len 0 c else some c).bind
        fun d => (exchangeLetters cipherJustLetters cribJustLetters l len).map (d :: ·) := by
  rw [exchangeLetters, List.mapM_cons]
  refine Option.bind_congr fun d _ => ?_
  show (exchangeLetters cipherJustLetters cribJustLetters l len).bind _ = _
  cases exchangeLetters cipherJustLetters cribJustLetters l len <;> rfl

variable (cipherJustLetters cribJustLetters) in
/-- Behind the loop over some characters, these have been exchanged, and no others. -/
theorem exchangeText_eq (len : Nat) (front l back : List Char) :
    exchangeText cipherJustLetters cribJustLetters len l.length front.length
        (front ++ (l ++ back)) =
      (exchangeLetters cipherJustLetters cribJustLetters l len).map
        fun result => front ++ (result ++ back) := by
  induction l generalizing front with
  | nil => rfl
  | cons c l ih =>
      have hget : (front ++ (c :: l ++ back))[front.length]? = some c := by simp
      -- the loop goes on behind the character that has been exchanged
      have hnext (d : Char) :
          exchangeText cipherJustLetters cribJustLetters len l.length (front.length + 1)
              (front ++ d :: (l ++ back)) =
            (exchangeLetters cipherJustLetters cribJustLetters l len).map
              fun result => front ++ (d :: result ++ back) := by
        have hrest := ih (front ++ [d])
        simpa using hrest
      rw [List.length_cons, exchangeText, hget, exchangeLetters_cons]
      simp only [Option.bind_eq_bind, Option.bind_some, List.cons_append]
      by_cases hc : c.isAlpha = true
      · rw [if_pos hc, if_pos hc, exchangeAt_eq]
        cases exchangeLetter cipherJustLetters cribJustLetters len 0 c with
        | none => rfl
        | some d =>
            simp only [Option.map_some, Option.bind_some, hnext, Option.map_map]
            rfl
      · rw [if_neg hc, if_neg hc]
        simp only [Option.bind_some, hnext, Option.map_map]
        rfl

end InPlace

/-! ## The key -/

section Key

variable (x y : List Char)

/-- A letter of the key is compared. -/
theorem exchangeLetter_step (before : List (Char × Char)) (p : Char × Char)
    (rest : List (Char × Char)) (c : Char) :
    exchangeLetter ((before ++ p :: rest).map Prod.fst ++ x)
        ((before ++ p :: rest).map Prod.snd ++ y) (rest.length + 1) before.length c =
      if c.toUpper = p.1.toUpper then some p.2
      else
        exchangeLetter ((before ++ p :: rest).map Prod.fst ++ x)
          ((before ++ p :: rest).map Prod.snd ++ y) rest.length (before.length + 1) c.toLower := by
  have hcipher : ((before ++ p :: rest).map Prod.fst ++ x)[before.length]? = some p.1 := by
    simp
  have hcrib : ((before ++ p :: rest).map Prod.snd ++ y)[before.length]? = some p.2 := by
    simp
  rw [exchangeLetter, hcipher, hcrib]
  rfl

/-- A small letter stays a small letter until it is found, by induction on the rest of the key. -/
theorem exchangeLetter_toLower (before rest : List (Char × Char)) (c : Char) :
    exchangeLetter ((before ++ rest).map Prod.fst ++ x) ((before ++ rest).map Prod.snd ++ y)
        rest.length before.length c.toLower =
      some (((rest.find? fun p => c.toUpper = p.1.toUpper).map Prod.snd).getD c.toLower) := by
  induction rest generalizing before with
  | nil => rfl
  | cons p rest ih =>
      have hnext := ih (before ++ [p])
      rw [List.append_assoc, List.singleton_append, List.length_append, List.length_singleton]
        at hnext
      rw [List.length_cons, exchangeLetter_step, Char.toUpper_toLower_eq_toUpper,
        Char.toLower_toLower_eq_toLower, hnext, List.find?_cons]
      by_cases heq : c.toUpper = p.1.toUpper
      · simp [heq]
      · simp [heq]

theorem exchangeLetter_eq (key : Key) (c : Char) :
    exchangeLetter (key.cipherJustLetters ++ x) (key.cribJustLetters ++ y) key.pairs.length 0 c =
      some (((key.pairs.find? fun p => c.toUpper = p.1.toUpper).map Prod.snd).getD c.toLower) := by
  obtain ⟨p, rest, hpairs⟩ := List.exists_cons_of_ne_nil key.nonempty
  have hstep := exchangeLetter_step x y [] p rest c
  have hrest := exchangeLetter_toLower x y [p] rest c
  rw [Key.cipherJustLetters, Key.cribJustLetters, hpairs, List.length_cons]
  rw [List.nil_append, List.length_nil] at hstep
  rw [List.singleton_append, List.length_singleton] at hrest
  rw [hstep, hrest, List.find?_cons]
  by_cases heq : c.toUpper = p.1.toUpper
  · simp [heq]
  · simp [heq]

/-- The letter that the key gives for a character. -/
theorem Key.exchanges_of_isAlpha (key : Key) {c : Char} (hc : c.isAlpha = true) :
    key.Exchanges c
      (((key.pairs.find? fun p => c.toUpper = p.1.toUpper).map Prod.snd).getD c.toLower) := by
  refine ⟨fun _ p hp heq => ?_, fun _ hnone => ?_, fun hother => ?_⟩
  · cases hfind : key.pairs.find? fun p => c.toUpper = p.1.toUpper with
    | none =>
        rw [List.find?_eq_none] at hfind
        exact absurd heq.symm (by simpa using hfind p hp)
    | some q =>
        have hq : c.toUpper = q.1.toUpper := by simpa using List.find?_some hfind
        exact key.functional q (List.mem_of_find?_eq_some hfind) p hp (hq.symm.trans heq.symm)
  · have hfind : (key.pairs.find? fun p => c.toUpper = p.1.toUpper) = none := by
      rw [List.find?_eq_none]
      intro p hp
      simpa using (hnone p hp).symm
    rw [hfind]
    rfl
  · rw [hc] at hother
    cases hother

theorem exchangeLetters_exchanges (key : Key) (l : List Char) :
    ∃ result, exchangeLetters (key.cipherJustLetters ++ x) (key.cribJustLetters ++ y) l
        key.pairs.length = some result ∧
      List.Forall₂ key.Exchanges l result := by
  induction l with
  | nil => exact ⟨[], rfl, .nil⟩
  | cons c l ih =>
      obtain ⟨result, hresult, hexchanges⟩ := ih
      rw [exchangeLetters_cons, hresult]
      by_cases hc : c.isAlpha = true
      · rw [if_pos hc, exchangeLetter_eq]
        exact ⟨_, rfl, .cons (key.exchanges_of_isAlpha hc) hexchanges⟩
      · rw [if_neg hc]
        refine ⟨_, rfl, .cons ⟨fun h => absurd h hc, fun h => absurd h hc, fun _ => rfl⟩ hexchanges⟩

end Key

/-- The letters of the text are exchanged all at once. Behind a number of rounds these are the
characters in front, as they were, and those behind them are unchanged. -/
theorem exchangeText_exchanges (key : Key) (x y front back : List Char) :
    ∃ result, exchangeText (key.cipherJustLetters ++ x) (key.cribJustLetters ++ y)
        key.pairs.length front.length 0 (front ++ back) = some (result ++ back) ∧
      List.Forall₂ key.Exchanges front result := by
  obtain ⟨result, hresult, hexchanges⟩ := exchangeLetters_exchanges x y key front
  refine ⟨result, ?_, hexchanges⟩
  have htext := exchangeText_eq (key.cipherJustLetters ++ x) (key.cribJustLetters ++ y)
    key.pairs.length [] front back
  rw [hresult] at htext
  exact htext

/-- A key whose first crib letter is its second cipher letter. -/
def chainedKey : Key where
  pairs := [('a', 'B'), ('B', 'C')]
  nonempty := by decide
  isAlpha := by decide
  isUpper := by decide
  functional := by decide

/-- The letter that was put in for the first one is not exchanged again. -/
theorem chainedKey_exchanges :
    exchangeText ['a', 'B'] ['B', 'C'] 2 4 0 "Cab!".toList = some "cBC!".toList ∧
      List.Forall₂ chainedKey.Exchanges "Cab!".toList "cBC!".toList := by
  have hrun : exchangeText ['a', 'B'] ['B', 'C'] 2 4 0 "Cab!".toList = some "cBC!".toList := by
    decide
  obtain ⟨result, hresult, hexchanges⟩ :=
    exchangeText_exchanges chainedKey [] [] "Cab!".toList []
  have heq := hrun.symm.trans hresult
  rw [List.append_nil] at heq
  exact ⟨hrun, Option.some.inj heq ▸ hexchanges⟩

/-! ## The key of a match -/

/-- The letters of a match, and those of the crib in upper case. -/
def Key.ofLetters {cipher crib : List Char} (hne : cipher ≠ [])
    (hlength : cipher.length = crib.length) (hcipher : ∀ c ∈ cipher, c.isAlpha = true)
    (hcrib : ∀ c ∈ crib, c.isAlpha = true) (h : IsOneToOne cipher crib) : Key where
  pairs := cipher.zip (crib.map Char.toUpper)
  nonempty := by
    rw [← List.length_pos_iff, List.length_zip, List.length_map, ← hlength, Nat.min_self]
    exact List.length_pos_iff.2 hne
  isAlpha p hp := hcipher p.1 (List.of_mem_zip hp).1
  isUpper p hp := by
    obtain ⟨c, hc, hupper⟩ := List.mem_map.1 (List.of_mem_zip hp).2
    rw [← hupper, Char.isUpper_toUpper_eq_isAlpha]
    exact hcrib c hc
  functional := by
    rw [List.zip_map_right]
    simp only [List.forall_mem_map]
    exact fun x hx y hy heq => (h x hx y hy).1 heq

section Match

variable {ciphertext crib : List Char} {s : Nat}

/-- The text that `decrypt` prints. -/
theorem exchangeMatch_exchanges {array : List (List Char)}
    (hcipher : ShowsFirst array ciphertext (s + (words crib).length))
    (hcrib : ∀ e ∈ entries crib, e.Tidy) (hne : words crib ≠ []) (hs : Plain ciphertext crib s) :
    ∃ key : Key, key.pairs = (lettersOf (stretch ciphertext crib s)).zip
          ((lettersOf (entries crib)).map Char.toUpper) ∧
      ∃ text, exchangeMatch array (rows (entries crib)) (words crib).length s ciphertext =
        some text ∧ List.Forall₂ key.Exchanges ciphertext text := by
  obtain ⟨hle, hfits, -⟩ := matches_iff_plain.mpr hs
  rw [length_wordLengths, length_wordLengths] at hle
  have hlength := length_lettersOf_stretch hle hfits
  have hentries : entries crib ≠ [] := by
    rw [← List.length_pos_iff, length_entries, List.length_pos_iff]
    exact hne
  have hcribShown := shown_of_tidy hcrib
  have hshown : ∀ e ∈ stretch ciphertext crib s, e.Shown := by
    rw [stretch, ← take_drop_take (Nat.le_refl _)]
    exact fun e he => hcipher.shown e (List.mem_of_mem_drop (List.mem_of_mem_take he))
  have hnonempty : lettersOf (stretch ciphertext crib s) ≠ [] := by
    rw [← List.length_pos_iff, hlength, List.length_pos_iff]
    exact lettersOf_ne_nil hcribShown hentries
  let key := Key.ofLetters hnonempty hlength (fun c => isAlpha_of_mem_lettersOf hshown)
    (fun c => isAlpha_of_mem_lettersOf hcribShown) ((plain_iff hle hfits).1 hs).2
  have hkeyLength : key.pairs.length = (lettersOf (entries crib)).length := by
    simp [key, Key.ofLetters, hlength]
  have hkeyCipher : key.cipherJustLetters = lettersOf (stretch ciphertext crib s) :=
    List.map_fst_zip (by simp [hlength])
  have hkeyCrib : key.cribJustLetters = (lettersOf (entries crib)).map Char.toUpper :=
    List.map_snd_zip (by simp [hlength])
  obtain ⟨x, hx⟩ : ∃ x, letterArray (stretch ciphertext crib s) =
      lettersOf (stretch ciphertext crib s) ++ x := ⟨_, rfl⟩
  obtain ⟨y, hy⟩ : ∃ y, letterArray (entries crib) = lettersOf (entries crib) ++ y := ⟨_, rfl⟩
  have hstretch : justLetters s array (words crib).length =
      some (letterArray (stretch ciphertext crib s)) := hcipher.justLetters_eq (Nat.le_refl _) hle
  obtain ⟨text, htext, hexchanges⟩ := exchangeLetters_exchanges x y key ciphertext
  refine ⟨key, rfl, text, ?_, hexchanges⟩
  rw [hkeyCipher, hkeyCrib, hkeyLength] at htext
  rw [exchangeMatch, justLetters_crib hcrib, hstretch]
  simp only [Option.bind_eq_bind, Option.bind_some, strlen_letterArray hcribShown hentries]
  rw [hy, List.take_left, List.drop_left, hx]
  exact htext

end Match

end Coursework.Decrypt
