import Mathlib.Data.List.DropRight
import Coursework.HttpServer.FileNames

/-!
# Looking up a file

`lookupFile` compares names in lower case and returns the name that it has compared, so what it
finds is an entry of the directory only if the name in lower case is one. `lookupFile_right_iff`
says for which directories and requests it is right. `string_To_Lowercase` is taken as what its name
says; the entries are in the order of `readdir`.
-/

namespace Coursework.HttpServer

open TextSearch

/-- `'.'`. -/
def dot : UInt8 := 46

/-- `"404 Error Page"`. -/
def errorPage : Text := [52, 48, 52, 32, 69, 114, 114, 111, 114, 32, 80, 97, 103, 101]

/-- `tolower`. -/
def toLower (c : UInt8) : UInt8 :=
  if 65 ≤ c ∧ c ≤ 90 then c + 32 else c

/-- `string_To_Lowercase`. -/
def stringToLowercase (text : Text) : Text :=
  text.map toLower

/-- `resource_no_ext`: the characters are popped up to the last dot, and then the dot is. -/
def resourceNoExt (resource : Text) : Text :=
  (resource.rdropWhile (· ≠ dot)).dropLast

/-- The loop of `lookupFile` over the entries of the directory. -/
def lookupLoop (extFlag : Bool) (filename : Text) : List Text → Text
  | [] => errorPage
  | dName :: entries =>
      let resource := stringToLowercase dName
      if extFlag then
        if resource = filename then resource else lookupLoop extFlag filename entries
      else if resource.head? = some dot then lookupLoop extFlag filename entries
      else if position [dot] resource ≠ none then
        if resourceNoExt resource = filename then resource else lookupLoop extFlag filename entries
      else if resource = filename then resource
      else lookupLoop extFlag filename entries

/-- `lookupFile`. -/
def lookupFile (entries : List Text) (filename : Text) : Text :=
  let filename := stringToLowercase filename
  let extFlag := position [dot] filename ≠ none
  lookupLoop extFlag filename entries

/-! ## What has to be shown -/

/-- Two texts are equal but for the case of letters. -/
def SameLetters (text text' : Text) : Prop :=
  stringToLowercase text = stringToLowercase text'

/-- The name without its last extension, if it has one. -/
def IsBase (base name : Text) : Prop :=
  (dot ∉ name ∧ base = name) ∨ ∃ ext, dot ∉ ext ∧ name = base ++ dot :: ext

/-- The entry is one for which the request asks. -/
def Matches (filename entry : Text) : Prop :=
  if dot ∈ filename then SameLetters entry filename
  else entry.head? ≠ some dot ∧ ∃ base, IsBase base entry ∧ SameLetters base filename

/-- What `lookupFile` is for: it returns the name of an entry if one matches, and else the error
page. -/
def LookupRight (entries : List Text) (filename : Text) : Prop :=
  (lookupFile entries filename = errorPage ∨ lookupFile entries filename ∈ entries) ∧
    (lookupFile entries filename ≠ errorPage ↔ ∃ entry ∈ entries, Matches filename entry)

/-- If an entry matches, the name of the first one that does is, in lower case, the name of an
entry. -/
def FirstInLowercase (entries : List Text) (filename : Text) : Prop :=
  ∀ front entry back, entries = front ++ entry :: back → (∀ e ∈ front, ¬ Matches filename e) →
    Matches filename entry → stringToLowercase entry ∈ entries

/-! ## Lower case -/

section Lowercase

variable {c : UInt8} {text base name : Text}

theorem toLower_eq_dot_iff : toLower c = dot ↔ c = dot := by
  unfold toLower dot
  split_ifs with h
  · obtain ⟨hle, hle'⟩ := h
    rw [UInt8.le_iff_toNat_le] at hle hle'
    rw [← UInt8.toNat_inj, ← UInt8.toNat_inj, UInt8.toNat_add]
    simp at hle hle' ⊢
    omega
  · exact Iff.rfl

theorem stringToLowercase_append (text text' : Text) :
    stringToLowercase (text ++ text') = stringToLowercase text ++ stringToLowercase text' :=
  List.map_append

/-- Dots stay where they are. -/
theorem dot_mem_stringToLowercase : dot ∈ stringToLowercase text ↔ dot ∈ text := by
  rw [stringToLowercase, List.mem_map]
  constructor
  · rintro ⟨c, hc, hdot⟩
    rwa [toLower_eq_dot_iff.1 hdot] at hc
  · exact fun h => ⟨dot, h, rfl⟩

theorem head?_stringToLowercase :
    (stringToLowercase text).head? = some dot ↔ text.head? = some dot := by
  cases text with
  | nil => exact Iff.rfl
  | cons c text =>
      show some (toLower c) = some dot ↔ some c = some dot
      rw [Option.some_inj, Option.some_inj, toLower_eq_dot_iff]

theorem toLower_ne_capital : toLower c ≠ 69 := by
  unfold toLower
  split_ifs with h
  · intro heq
    rw [UInt8.le_iff_toNat_le, UInt8.le_iff_toNat_le] at h
    rw [← UInt8.toNat_inj, UInt8.toNat_add] at heq
    simp at h heq
    omega
  · rintro rfl
    exact h (by decide)

/-- The error page has a capital letter. -/
theorem stringToLowercase_ne_errorPage (text : Text) : stringToLowercase text ≠ errorPage := by
  intro h
  have hmem : 69 ∈ stringToLowercase text := by
    rw [h]
    decide
  obtain ⟨c, -, hc⟩ := List.mem_map.1 hmem
  exact toLower_ne_capital hc

/-- The characters in front of the last dot. -/
theorem resourceNoExt_eq {ext : Text} (h : dot ∉ ext) (base : Text) :
    resourceNoExt (base ++ dot :: ext) = base := by
  have hpopped : ∀ c ∈ ext.reverse, decide (c ≠ dot) = true := by
    intro c hc
    exact decide_eq_true (ne_of_mem_of_not_mem (List.mem_reverse.1 hc) h)
  have hreverse : (base ++ dot :: ext).reverse = ext.reverse ++ dot :: base.reverse := by simp
  rw [resourceNoExt, List.rdropWhile, hreverse, List.dropWhile_append_of_pos hpopped]
  simp

/-- What is compared for a request without a dot. -/
theorem exists_base_iff (filename name : Text) :
    (∃ base, IsBase base name ∧ SameLetters base filename) ↔
      (if position [dot] (stringToLowercase name) ≠ none
        then resourceNoExt (stringToLowercase name) = stringToLowercase filename
        else stringToLowercase name = stringToLowercase filename) := by
  have hposition : position [dot] (stringToLowercase name) ≠ none ↔ dot ∈ name := by
    rw [ne_eq, position_singleton_eq_none_iff, not_not, dot_mem_stringToLowercase]
  by_cases hdot : dot ∈ name
  · rw [if_pos (hposition.2 hdot)]
    have hsplit : ∀ base ext, dot ∉ ext → name = base ++ dot :: ext →
        resourceNoExt (stringToLowercase name) = stringToLowercase base := by
      rintro base ext hext rfl
      rw [stringToLowercase_append]
      exact resourceNoExt_eq (mt dot_mem_stringToLowercase.1 hext) (stringToLowercase base)
    constructor
    · rintro ⟨base, ⟨hnone, -⟩ | ⟨ext, hext, hname⟩, hsame⟩
      · exact absurd hdot hnone
      · rw [hsplit base ext hext hname]
        exact hsame
    · intro hsame
      -- the last dot
      obtain ⟨front, back, hname, hfront⟩ := List.eq_append_cons_of_mem (List.mem_reverse.2 hdot)
      have hname' : name = back.reverse ++ dot :: front.reverse := by
        rw [← List.reverse_reverse name, hname]
        simp
      have hext : dot ∉ front.reverse := mt List.mem_reverse.1 hfront
      refine ⟨back.reverse, .inr ⟨front.reverse, hext, hname'⟩, ?_⟩
      rw [hsplit _ _ hext hname'] at hsame
      exact hsame
  · rw [if_neg (mt hposition.1 hdot)]
    constructor
    · rintro ⟨base, ⟨-, rfl⟩ | ⟨ext, -, rfl⟩, hsame⟩
      · exact hsame
      · simp at hdot
    · exact fun hsame => ⟨name, .inl ⟨hdot, rfl⟩, hsame⟩

end Lowercase

/-! ## The loop -/

section Lookup

variable {filename dName : Text} {entries : List Text}

/-- Whether the loop ends at an entry. -/
theorem lookupLoop_cons (filename dName : Text) (entries : List Text) :
    (Matches filename dName ∧
      lookupLoop (dot ∈ filename) (stringToLowercase filename) (dName :: entries) =
        stringToLowercase dName) ∨
      (¬ Matches filename dName ∧
      lookupLoop (dot ∈ filename) (stringToLowercase filename) (dName :: entries) =
        lookupLoop (dot ∈ filename) (stringToLowercase filename) entries) := by
  by_cases hdot : dot ∈ filename
  · rw [Matches, if_pos hdot, lookupLoop, if_pos (decide_eq_true hdot)]
    by_cases hsame : SameLetters dName filename
    · exact .inl ⟨hsame, if_pos hsame⟩
    · exact .inr ⟨hsame, if_neg hsame⟩
  · rw [Matches, if_neg hdot, lookupLoop, if_neg (by simpa using hdot), exists_base_iff]
    by_cases hhead : dName.head? = some dot
    · rw [if_pos (head?_stringToLowercase.2 hhead)]
      exact .inr ⟨fun h => h.1 hhead, rfl⟩
    · rw [if_neg (mt head?_stringToLowercase.1 hhead)]
      split_ifs with hext hsame hsame
      · exact .inl ⟨⟨hhead, hsame⟩, rfl⟩
      · exact .inr ⟨fun h => hsame h.2, rfl⟩
      · exact .inl ⟨⟨hhead, hsame⟩, rfl⟩
      · exact .inr ⟨fun h => hsame h.2, rfl⟩

/-- What the loop returns. -/
theorem lookupLoop_cases (filename : Text) (entries : List Text) :
    ((∀ e ∈ entries, ¬ Matches filename e) ∧
      lookupLoop (dot ∈ filename) (stringToLowercase filename) entries = errorPage) ∨
      ∃ front entry back, entries = front ++ entry :: back ∧ (∀ e ∈ front, ¬ Matches filename e) ∧
        Matches filename entry ∧
        lookupLoop (dot ∈ filename) (stringToLowercase filename) entries =
          stringToLowercase entry := by
  induction entries with
  | nil => exact .inl ⟨fun _ h => absurd h List.not_mem_nil, rfl⟩
  | cons dName entries ih =>
      rcases lookupLoop_cons filename dName entries with ⟨hmatches, hrun⟩ | ⟨hpassed, hrun⟩
      · exact .inr ⟨[], dName, entries, rfl, fun _ h => absurd h List.not_mem_nil, hmatches, hrun⟩
      rw [hrun]
      rcases ih with ⟨hnone, herror⟩ | ⟨front, entry, back, rfl, hfront, hmatches, hfound⟩
      · exact .inl ⟨List.forall_mem_cons.2 ⟨hpassed, hnone⟩, herror⟩
      · exact .inr ⟨dName :: front, entry, back, rfl, List.forall_mem_cons.2 ⟨hpassed, hfront⟩,
          hmatches, hfound⟩

/-- What `lookupFile` returns. -/
theorem lookupFile_cases (filename : Text) (entries : List Text) :
    ((∀ e ∈ entries, ¬ Matches filename e) ∧ lookupFile entries filename = errorPage) ∨
      ∃ front entry back, entries = front ++ entry :: back ∧ (∀ e ∈ front, ¬ Matches filename e) ∧
        Matches filename entry ∧ lookupFile entries filename = stringToLowercase entry := by
  have hrun : lookupFile entries filename =
      lookupLoop (dot ∈ filename) (stringToLowercase filename) entries := by
    simp only [lookupFile, ne_eq, position_singleton_eq_none_iff, not_not,
      dot_mem_stringToLowercase]
  rw [hrun]
  exact lookupLoop_cases filename entries

/-- There is only one first element with a property. -/
theorem first_unique {α : Type} {p : α → Prop} {front front' back back' : List α} {x x' : α}
    (heq : front ++ x :: back = front' ++ x' :: back') (h : ∀ y ∈ front, ¬ p y)
    (h' : ∀ y ∈ front', ¬ p y) (hx : p x) (hx' : p x') : x = x' := by
  rcases List.append_eq_append_iff.1 heq with ⟨mid, hfront, hmid⟩ | ⟨mid, hfront, hmid⟩
  · cases mid with
    | nil => exact (List.cons.inj hmid).1
    | cons y mid =>
        obtain ⟨rfl, -⟩ := List.cons.inj hmid
        exact absurd hx (h' x (by simp [hfront]))
  · cases mid with
    | nil => exact (List.cons.inj hmid).1.symm
    | cons y mid =>
        obtain ⟨rfl, -⟩ := List.cons.inj hmid
        exact absurd hx' (h x' (by simp [hfront]))

/-- `lookupFile` is right exactly if the first entry that matches, if there is one, is in lower
case the name of an entry. -/
theorem lookupFile_right_iff (entries : List Text) (filename : Text) :
    LookupRight entries filename ↔ FirstInLowercase entries filename := by
  rcases lookupFile_cases filename entries with ⟨hnone, hrun⟩ |
    ⟨front, entry, back, hentries, hfront, hmatches, hrun⟩
  · refine iff_of_true ⟨.inl hrun, ?_⟩ ?_
    · rw [hrun]
      exact iff_of_false (fun h => h rfl) fun ⟨e, he, h⟩ => hnone e he h
    · rintro front entry back rfl - hmatches
      exact absurd hmatches (hnone entry (by simp))
  · rw [LookupRight, hrun]
    have hne := stringToLowercase_ne_errorPage entry
    have hmem : entry ∈ entries := by simp [hentries]
    constructor
    · rintro ⟨hright, -⟩ front' entry' back' hentries' hfront' hmatches'
      obtain rfl := first_unique (hentries.symm.trans hentries') hfront hfront' hmatches hmatches'
      exact hright.resolve_left hne
    · exact fun h => ⟨.inr (h front entry back hentries hfront hmatches),
        iff_of_true hne ⟨entry, hmem, hmatches⟩⟩

/-- The file `A` is not found under its name. -/
theorem lookupFile_capital : ¬ LookupRight [[65]] [65] := by
  rintro ⟨hright, -⟩
  have hrun : lookupFile [[65]] [65] = [97] := by decide
  rw [hrun] at hright
  exact absurd hright (by decide)

end Lookup

end Coursework.HttpServer
