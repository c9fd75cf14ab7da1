import Coursework.Decrypt.Tests
import Coursework.Text.Pairs
import Mathlib

/-!
# Simple substitution

`isSimpleSub_iff` says that `isSimpleSub` looks for a one-to-one function on the letters that makes
one string out of the other, and that it does not matter which string is the first.
Vocabulary and scope: `Coursework.Decrypt.Tests`.
-/

namespace Coursework.Decrypt

open Pairs

/-- The letters in upper case. -/
def upperLetters : Set Char :=
  {c | c.isUpper = true}

/-- A one-to-one function on the letters, in either case, makes the second text out of the first,
character by character. -/
def IsSubstitution (cipher crib : List Char) : Prop :=
  ∃ f : Char → Char, upperLetters.MapsTo f upperLetters ∧ upperLetters.InjOn f ∧
    cipher.map (fun c => f c.toUpper) = crib.map Char.toUpper

/-- The letters of two texts, in upper case. -/
def upperPairs (cipher crib : List Char) : List (Char × Char) :=
  (cipher.map Char.toUpper).zip (crib.map Char.toUpper)

theorem finite_upperLetters : upperLetters.Finite := by
  refine Set.Finite.of_injOn (f := Char.toNat) (t := Set.Icc 65 90) ?_ ?_ (Set.finite_Icc 65 90)
  · intro c hc
    have hc' : c.isUpper = true := hc
    simpa [Char.isUpper, UInt32.le_iff_toNat_le] using hc'
  · intro c _ d _ h
    exact Char.toNat_inj.1 h

theorem isOneToOne_iff (cipher crib : List Char) :
    IsOneToOne cipher crib ↔ OneToOne (upperPairs cipher crib) := by
  rw [IsOneToOne, OneToOne, upperPairs, List.zip_map]
  simp only [List.forall_mem_map, Prod.map_fst, Prod.map_snd]

theorem isSubstitution_iff {cipher crib : List Char} (hcipher : ∀ c ∈ cipher, c.isAlpha = true)
    (hcrib : ∀ c ∈ crib, c.isAlpha = true) (hlength : cipher.length = crib.length) :
    IsSubstitution cipher crib ↔ IsOneToOne cipher crib := by
  have hmem : ∀ x ∈ upperPairs cipher crib, x.1 ∈ upperLetters ∧ x.2 ∈ upperLetters := by
    intro x hx
    obtain ⟨hfst, hsnd⟩ := List.of_mem_zip hx
    obtain ⟨c, hc, hupper⟩ := List.mem_map.1 hfst
    obtain ⟨d, hd, hupper'⟩ := List.mem_map.1 hsnd
    rw [← hupper, ← hupper']
    exact ⟨(Char.isUpper_toUpper_eq_isAlpha c).trans (hcipher c hc),
      (Char.isUpper_toUpper_eq_isAlpha d).trans (hcrib d hd)⟩
  rw [isOneToOne_iff, ← exists_injOn_iff finite_upperLetters hmem, IsSubstitution]
  refine exists_congr fun f => and_congr_right fun _ => and_congr_right fun _ => ?_
  have hmap : cipher.map (fun c => f c.toUpper) = (cipher.map Char.toUpper).map f :=
    List.map_map.symm
  rw [hmap, map_eq_iff_forall_zip (by simpa using hlength), upperPairs]

theorem isOneToOne_comm (cipher crib : List Char) :
    IsOneToOne crib cipher ↔ IsOneToOne cipher crib := by
  rw [isOneToOne_iff, isOneToOne_iff, ← oneToOne_swap, upperPairs, List.zip_swap, upperPairs]

/-- `isSimpleSub` finds out if the letters of one string stand for those of the other. What is in
the arrays behind the strings does not matter. -/
theorem isSimpleSub_iff {cipher crib : List Char} (hcipher : ∀ c ∈ cipher, c.isAlpha = true)
    (hcrib : ∀ c ∈ crib, c.isAlpha = true) (hlength : cipher.length = crib.length)
    (x y : List Char) :
    ∃ b, isSimpleSub (cipher ++ '\x00' :: x) (crib ++ '\x00' :: y) = some b ∧
      isSimpleSub (crib ++ '\x00' :: y) (cipher ++ '\x00' :: x) = some b ∧
      (b = true ↔ IsSubstitution cipher crib) := by
  refine ⟨decide (IsOneToOne cipher crib), ?_, ?_, ?_⟩
  · exact isSimpleSub_append (nul_not_mem_of_isAlpha hcipher) hlength x _
  · rw [isSimpleSub_append (nul_not_mem_of_isAlpha hcrib) hlength.symm y, Option.some_inj,
      decide_eq_decide]
    exact isOneToOne_comm cipher crib
  · rw [decide_eq_true_iff, isSubstitution_iff hcipher hcrib hlength]

/-- The case of the letters does not matter. -/
theorem abba_otto : IsSubstitution "Abba".toList "oTTo".toList := by
  have habba : "Abba".toList.all Char.isAlpha = true := rfl
  have hotto : "oTTo".toList.all Char.isAlpha = true := rfl
  obtain ⟨b, hb, -, hiff⟩ :=
    isSimpleSub_iff (List.all_eq_true.1 habba) (List.all_eq_true.1 hotto) rfl [] []
  have htrue :
      isSimpleSub ("Abba".toList ++ ['\x00']) ("oTTo".toList ++ ['\x00']) = some true := rfl
  rw [htrue, Option.some_inj] at hb
  exact hiff.1 hb.symm

end Coursework.Decrypt
