import Coursework.Decrypt.Bounds
import Coursework.Decrypt.Exchange

/-!
# When the search for a crib is right

`decrypt_right` says that `decrypt` stays inside its arrays and finds a legal match exactly if
there is one, for the texts that it can handle (`Handled`): it does not leave early with a false
answer, the texts do not start with a newline, the rows up to the match show their words, the search
is in step, and if there are legal matches then one of them has no blemish. `handled_of_right` is
the other direction, for texts whose rows up to the match show their words and where the search is
in step.
Vocabulary and scope: `Coursework.Decrypt.Matches` and `Coursework.Decrypt.Exchange`.
-/

namespace Coursework.Decrypt

section Condition

variable (ciphertext crib : List Char)

/-- No message is longer than 80 characters. -/
def MessagesFit : Prop :=
  ∀ message ∈ ciphertext.splitOn '\n', message.length ≤ 80

/-- `decrypt` returns before it makes the word arrays. -/
def LeavesEarly : Prop :=
  crib = [] ∨ ciphertext.length < crib.length ∨ 80 < crib.length ∨
    countWords ciphertext < countWords crib

/-- The search is in step, and the rows show their words: those of the crib, and those of the
ciphertext that are not behind a match without a blemish. -/
structure InOrder : Prop where
  cipherTidy : ∀ k e, (entries ciphertext)[k]? = some e →
    (∀ s, s + (words crib).length ≤ k → ¬ Plain ciphertext crib s) → e.Tidy
  cribTidy : ∀ e ∈ entries crib, e.Tidy
  inStep : InStep (wordLengths ciphertext) (wordLengths crib) (Plain ciphertext crib)

/-- The texts for which `decrypt` is right. -/
structure Handled : Prop where
  early : LeavesEarly ciphertext crib → ¬ LegalMatch ciphertext crib
  start : ¬ LeavesEarly ciphertext crib → words ciphertext ≠ [] → ciphertext.head? ≠ some '\n'
  cribStart : ¬ LeavesEarly ciphertext crib → words crib ≠ [] → crib.head? ≠ some '\n'
  inOrder : ¬ LeavesEarly ciphertext crib → words crib ≠ [] → InOrder ciphertext crib
  plain : ¬ LeavesEarly ciphertext crib → LegalMatch ciphertext crib →
    ∃ s, Plain ciphertext crib s

/-- `decrypt` returns and is right, whatever is in the memory of its arrays. -/
def IsRight : Prop :=
  ∀ cipherMemory cribMemory, ∃ b, decrypt cipherMemory cribMemory ciphertext crib = some b ∧
    (b = true ↔ LegalMatch ciphertext crib)

end Condition

variable {ciphertext crib : List Char}

theorem countWords_eq_zero_iff {cstring : List Char} :
    countWords cstring = 0 ↔ words cstring = [] := by
  rw [countWords_eq, length_runs, List.length_eq_zero_iff]

theorem words_eq_nil_of_lacksLetters (h : lacksLetters ciphertext = true) :
    words ciphertext = [] := by
  rw [lacksLetters, Bool.and_eq_true, beq_iff_eq, Bool.not_eq_true'] at h
  obtain ⟨c, rfl⟩ := List.length_eq_one_iff.mp h.1
  rw [← countWords_eq_zero_iff, countWords_cons_other (by simpa [charAt] using h.2)]
  rfl

/-! ## The early exits -/

theorem decrypt_early (h : LeavesEarly ciphertext crib) (cipherMemory cribMemory : Nat → Int) :
    decrypt cipherMemory cribMemory ciphertext crib = some false := by
  rw [decrypt]
  rcases h with h | h | h | h
  · rw [if_pos h]
  all_goals simp [h]

/-- Behind the preliminary testing. -/
theorem decrypt_eq_decryptWords (h : ¬ LeavesEarly ciphertext crib)
    (hletters : ¬ lacksLetters ciphertext = true) (cipherMemory cribMemory : Nat → Int) :
    decrypt cipherMemory cribMemory ciphertext crib =
      decryptWords cipherMemory cribMemory ciphertext crib := by
  simp only [LeavesEarly, not_or] at h
  obtain ⟨hnil, hlonger, hlong, hmore⟩ := h
  rw [decrypt, if_neg hnil, if_neg hlonger, if_neg hlong, if_neg hmore, if_neg hletters]

theorem words_ne_nil (h : ¬ LeavesEarly ciphertext crib) (hne : words crib ≠ []) :
    words ciphertext ≠ [] := by
  simp only [LeavesEarly, not_or] at h
  intro hnil
  have hzero := countWords_eq_zero_iff.mpr hnil
  have hcrib := mt countWords_eq_zero_iff.mp hne
  omega

/-- A crib without a word is not found. -/
theorem decryptWords_wordless (hcrib : words crib = [])
    (hstart : words ciphertext ≠ [] → ciphertext.head? ≠ some '\n')
    (cipherMemory cribMemory : Nat → Int) :
    decryptWords cipherMemory cribMemory ciphertext crib = some false := by
  have hbounds : countWords ciphertext = 0 ∨ ciphertext.head? ≠ some '\n' := by
    rw [countWords_eq_zero_iff]
    exact or_iff_not_imp_left.mpr hstart
  obtain ⟨cipherWords, hcipherWords⟩ := createWordArray_isSome hbounds
  have hcribWords : createWordArray crib = some [] := by
    rw [createWordArray, countWords_eq_zero_iff.mpr hcrib]
    rfl
  have hlengths : wordOrder cribMemory [] = [] := rfl
  have hfind : findMatch (wordOrder cipherMemory cipherWords) [] cipherWords [] = some none := rfl
  rw [decryptWords, hcipherWords, hcribWords]
  simp only [Option.bind_eq_bind, Option.bind_some, hlengths, hfind]

/-- A newline at the start is preceded by nothing. -/
theorem decryptWords_eq_none (h : words ciphertext ≠ [] ∧ ciphertext.head? = some '\n' ∨
    words crib ≠ [] ∧ crib.head? = some '\n') (cipherMemory cribMemory : Nat → Int) :
    decryptWords cipherMemory cribMemory ciphertext crib = none := by
  rw [decryptWords]
  rcases h with ⟨hwords, hstart⟩ | ⟨hwords, hstart⟩
  · rw [createWordArray_eq_none (mt countWords_eq_zero_iff.mp hwords) hstart]
    rfl
  · rw [createWordArray_eq_none (mt countWords_eq_zero_iff.mp hwords) hstart]
    cases createWordArray ciphertext <;> rfl

/-! ## The search -/

section Searched

/-- The word array of a text whose rows show their words. -/
theorem createWordArray_of_tidy {cstring : List Char} (hstart : cstring.head? ≠ some '\n')
    (htidy : ∀ e ∈ entries cstring, e.Tidy) :
    createWordArray cstring = some (rows (entries cstring)) := by
  obtain ⟨array, harray⟩ := createWordArray_isSome (.inr hstart)
  have hshows : ShowsFirst array cstring (words cstring).length :=
    showsFirst_of_tidy hstart harray fun e he => htidy e (List.mem_of_mem_take he)
  have htake := hshows.take_eq
  rw [List.take_of_length_le hshows.length_eq.le, List.take_of_length_le (length_entries _).le]
    at htake
  rw [harray, htake]

theorem wordOrder_of_tidy {cstring : List Char} (htidy : ∀ e ∈ entries cstring, e.Tidy)
    (memory : Nat → Int) : wordOrder memory (rows (entries cstring)) = wordLengths cstring := by
  rw [wordOrder_eq memory (shown_of_tidy htidy), wordLengths, ← map_letters_entries, List.map_map]
  rfl

/-- The rows that are not behind a match. -/
theorem InOrder.showsFirst (h : InOrder ciphertext crib) (hstart : ciphertext.head? ≠ some '\n')
    {array : List (List Char)} (harray : createWordArray ciphertext = some array) {m : Nat}
    (hno : ∀ s, s + (words crib).length < m → ¬ Plain ciphertext crib s) :
    ShowsFirst array ciphertext m := by
  refine showsFirst_of_tidy hstart harray fun e he => ?_
  obtain ⟨k, hk⟩ := List.mem_iff_getElem?.mp he
  rw [List.getElem?_take] at hk
  split at hk
  case isTrue hkm => exact h.cipherTidy k e hk fun s hs => hno s (hs.trans_lt hkm)
  case isFalse => cases hk

/-- The search returns the first legal match without a blemish. -/
theorem findMatch_eq (hne : words crib ≠ []) (hstart : ciphertext.head? ≠ some '\n')
    (h : InOrder ciphertext crib) {array : List (List Char)}
    (harray : createWordArray ciphertext = some array) (memory : Nat → Int) :
    ∃ found, findMatch (wordOrder memory array) (wordLengths crib) array (rows (entries crib)) =
        some found ∧ IsFirst (Plain ciphertext crib) found := by
  have hpos : 0 < (wordLengths crib).length := by
    rw [length_wordLengths, List.length_pos_iff]
    exact hne
  have hmatches : Matches (wordLengths ciphertext) (wordLengths crib) (Plain ciphertext crib) =
      Plain ciphertext crib := funext fun s => propext matches_iff_plain
  have htest : Decides (wordLengths ciphertext) (wordLengths crib) (Plain ciphertext crib)
      (isMatch (wordLengths crib) array (letterArray (entries crib))) := by
    intro s hbefore hle hfits
    rw [hmatches] at hbefore
    rw [length_wordLengths, length_wordLengths] at hle
    exact isMatch_iff_plain (h.showsFirst hstart harray fun t ht => hbefore t (by omega))
      (Nat.le_refl _) hne hle hfits
  have hlength : (wordOrder memory array).length = (wordLengths ciphertext).length :=
    (h.showsFirst hstart harray (m := 0) fun _ hs => absurd hs (Nat.not_lt_zero _)).length_wordOrder
      memory
  have hagrees (k : Nat) (hno : ∀ s, s + (wordLengths crib).length ≤ k →
      ¬ Matches (wordLengths ciphertext) (wordLengths crib) (Plain ciphertext crib) s) :
      (wordOrder memory array)[k]? = (wordLengths ciphertext)[k]? := by
    rw [hmatches, length_wordLengths] at hno
    have htake := (h.showsFirst hstart harray (m := k + 1) fun s hs =>
      hno s (Nat.le_of_lt_succ hs)).wordOrder_take memory
    rw [← List.getElem?_take_of_lt k.lt_succ_self, htake, List.getElem?_take_of_lt k.lt_succ_self]
  obtain ⟨found, hfound, hfirst⟩ := searchWords_eq hpos htest h.inStep hlength hagrees
  refine ⟨found, ?_, hmatches ▸ hfirst⟩
  rw [findMatch, length_wordLengths crib, justLetters_crib h.cribTidy]
  simpa only [Option.bind_eq_bind, Option.bind_some, length_wordLengths crib] using hfound

theorem decryptWords_eq (hne : words crib ≠ []) (hcipher : ciphertext.head? ≠ some '\n')
    (hcrib : crib.head? ≠ some '\n') (h : InOrder ciphertext crib)
    (cipherMemory cribMemory : Nat → Int) :
    ∃ b, decryptWords cipherMemory cribMemory ciphertext crib = some b ∧
      (b = true ↔ ∃ s, Plain ciphertext crib s) := by
  obtain ⟨array, harray⟩ := createWordArray_isSome (.inr hcipher)
  obtain ⟨found, hfound, hfirst⟩ := findMatch_eq hne hcipher h harray cipherMemory
  rw [decryptWords, harray, createWordArray_of_tidy hcrib h.cribTidy]
  simp only [Option.bind_eq_bind, Option.bind_some, wordOrder_of_tidy h.cribTidy, hfound,
    length_wordLengths]
  cases found with
  | none => exact ⟨false, rfl, iff_of_false Bool.false_ne_true fun ⟨s, hs⟩ => hfirst s hs⟩
  | some s =>
      have hshows : ShowsFirst array ciphertext (s + (words crib).length) :=
        h.showsFirst hcipher harray fun t ht => hfirst.2 t (by omega)
      obtain ⟨-, -, text, htext, -⟩ := exchangeMatch_exchanges hshows h.cribTidy hne hfirst.1
      simp only [htext, Option.bind_some]
      exact ⟨true, rfl, iff_of_true rfl ⟨s, hfirst.1⟩⟩

end Searched

/-! ## The result -/

theorem legalMatch_of_plain (hne : words crib ≠ []) {s : Nat} (h : Plain ciphertext crib s) :
    LegalMatch ciphertext crib :=
  legalMatch_of_legalAt hne h.1

theorem not_lacksLetters (h : ¬ LeavesEarly ciphertext crib) (hne : words crib ≠ []) :
    ¬ lacksLetters ciphertext = true :=
  fun hletters => words_ne_nil h hne (words_eq_nil_of_lacksLetters hletters)

/-- What `decrypt` returns for texts in order. -/
theorem decrypt_eq (hearly : ¬ LeavesEarly ciphertext crib) (hne : words crib ≠ [])
    (hcipher : ciphertext.head? ≠ some '\n') (hcrib : crib.head? ≠ some '\n')
    (h : InOrder ciphertext crib) (cipherMemory cribMemory : Nat → Int) :
    ∃ b, decrypt cipherMemory cribMemory ciphertext crib = some b ∧
      (b = true ↔ ∃ s, Plain ciphertext crib s) := by
  rw [decrypt_eq_decryptWords hearly (not_lacksLetters hearly hne)]
  exact decryptWords_eq hne hcipher hcrib h cipherMemory cribMemory

/-- Where the texts are in order, there are no other texts that `decrypt` is right about. -/
theorem handled_of_right
    (horder : ¬ LeavesEarly ciphertext crib → words crib ≠ [] → InOrder ciphertext crib)
    (h : IsRight ciphertext crib) : Handled ciphertext crib := by
  obtain ⟨b, hb, hiff⟩ := h (fun _ => 0) (fun _ => 0)
  have hstart (hearly : ¬ LeavesEarly ciphertext crib)
      (hletters : ¬ lacksLetters ciphertext = true) :
      ¬ (words ciphertext ≠ [] ∧ ciphertext.head? = some '\n' ∨
        words crib ≠ [] ∧ crib.head? = some '\n') := by
    intro hnewline
    rw [decrypt_eq_decryptWords hearly hletters, decryptWords_eq_none hnewline] at hb
    cases hb
  have hcipherStart (hearly : ¬ LeavesEarly ciphertext crib) (hwords : words ciphertext ≠ [])
      (hnewline : ciphertext.head? = some '\n') : False :=
    hstart hearly (fun hletters => hwords (words_eq_nil_of_lacksLetters hletters))
      (.inl ⟨hwords, hnewline⟩)
  have hcribStart (hearly : ¬ LeavesEarly ciphertext crib) (hne : words crib ≠ [])
      (hnewline : crib.head? = some '\n') : False :=
    hstart hearly (not_lacksLetters hearly hne) (.inr ⟨hne, hnewline⟩)
  refine ⟨fun hearly hlegal => ?_, hcipherStart, hcribStart, horder, fun hearly hlegal => ?_⟩
  · rw [decrypt_early hearly, Option.some_inj] at hb
    exact Bool.false_ne_true (hb.trans (hiff.mpr hlegal))
  · have hne : words crib ≠ [] := hlegal.1
    obtain ⟨b', hb', hplain⟩ := decrypt_eq hearly hne
      (hcipherStart hearly (words_ne_nil hearly hne)) (hcribStart hearly hne) (horder hearly hne)
      (fun _ => 0) (fun _ => 0)
    rw [hb', Option.some_inj] at hb
    exact hplain.mp (hb.trans (hiff.mpr hlegal))

/-- `decrypt` is right about the texts that it can handle. -/
theorem decrypt_right (h : Handled ciphertext crib) : IsRight ciphertext crib := by
  intro cipherMemory cribMemory
  by_cases hearly : LeavesEarly ciphertext crib
  · refine ⟨false, decrypt_early hearly cipherMemory cribMemory, ?_⟩
    simp [h.early hearly]
  · by_cases hcrib : words crib = []
    · have hillegal : ¬ LegalMatch ciphertext crib := fun hlegal => hlegal.1 hcrib
      refine ⟨false, ?_, by simp [hillegal]⟩
      by_cases hletters : lacksLetters ciphertext = true
      · simp [decrypt, hletters]
      · rw [decrypt_eq_decryptWords hearly hletters]
        exact decryptWords_wordless hcrib (h.start hearly) cipherMemory cribMemory
    · obtain ⟨b, hb, hiff⟩ := decrypt_eq hearly hcrib
        (h.start hearly (words_ne_nil hearly hcrib)) (h.cribStart hearly hcrib)
        (h.inOrder hearly hcrib) cipherMemory cribMemory
      refine ⟨b, hb, hiff.trans ⟨fun ⟨s, hs⟩ => legalMatch_of_plain hcrib hs, h.plain hearly⟩⟩

/-- The first word is passed over, and the second one is a match. -/
theorem dog_found : IsRight "hi bat".toList "dog".toList := by
  have hearly : ¬ LeavesEarly "hi bat".toList "dog".toList := by
    simp only [LeavesEarly, not_or]
    decide
  have hplain : Plain "hi bat".toList "dog".toList 1 := by
    have hstretch : stretch "hi bat".toList "dog".toList 1 = [⟨[], "bat".toList, none⟩] := rfl
    refine ⟨⟨by decide, by decide, rfl, by decide⟩, ?_⟩
    rw [hstretch]
    simp [Blemished]
  have hcipher : ∀ e ∈ entries "hi bat".toList, e.Tidy := by
    rw [show entries "hi bat".toList =
      [⟨[], "hi".toList, some ' '⟩, ⟨[], "bat".toList, none⟩] from rfl]
    exact List.forall_mem_cons.mpr
      ⟨⟨by decide, by decide⟩, List.forall_mem_singleton.mpr ⟨by decide, by decide⟩⟩
  have hcrib : ∀ e ∈ entries "dog".toList, e.Tidy :=
    List.forall_mem_singleton.mpr ⟨by decide, by decide⟩
  have hstep : InStep (wordLengths "hi bat".toList) (wordLengths "dog".toList)
      (Plain "hi bat".toList "dog".toList) := by
    intro s hs _
    rw [show wordLengths "hi bat".toList = [2, 3] from rfl] at hs ⊢
    rw [show wordLengths "dog".toList = [3] from rfl]
    obtain rfl | rfl : s = 0 ∨ s = 1 := by
      rw [List.length_cons, List.length_singleton] at hs
      omega
    · exact .inr ⟨by decide, by decide⟩
    · left
      intro i hi _
      obtain rfl : i = 0 := Nat.lt_one_iff.mp hi
      rfl
  exact decrypt_right ⟨fun h => absurd h hearly, fun _ _ => by decide, fun _ _ => by decide,
    fun _ _ => ⟨fun _ e he _ => hcipher e (List.mem_of_getElem? he), hcrib, hstep⟩,
    fun _ _ => ⟨1, hplain⟩⟩

/-- A newline directly behind the match is taken for one inside it. -/
theorem match_before_newline_lost :
    MessagesFit "hi\n".toList ∧ LegalMatch "hi\n".toList "we".toList ∧
      decrypt (fun _ => 0) (fun _ => 0) "hi\n".toList "we".toList = some false := by
  have hfit : MessagesFit "hi\n".toList := by
    rw [MessagesFit]
    decide
  have hlegal : LegalAt "hi\n".toList "we".toList 0 := ⟨by decide, by decide, rfl, by decide⟩
  exact ⟨hfit, (legalMatch_iff _ _).mpr ⟨by decide, 0, hlegal⟩, by decide⟩

end Coursework.Decrypt
