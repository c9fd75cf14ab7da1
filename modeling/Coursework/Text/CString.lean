import Mathlib.Order.Lattice

/-!
# C strings

Null-terminated byte strings and `strcmp`. `strcmp` compares bytes as `unsigned char`, so
its sign is the lexicographic order of the byte lists; the standard fixes the sign only, and
every caller in the sources tests the sign only. The order is packaged as a `LinearOrder`
(`strcmp_le_zero_iff`, `strcmp_eq_zero_iff`).
-/

namespace Coursework

/-- A C string: the bytes before the terminator, none of which is the terminator. -/
structure CString where
  bytes : List UInt8
  terminated : 0 ∉ bytes
  deriving DecidableEq

namespace CString

/-- `strcmp` on the bytes before the terminators; an ended string reads as a zero byte. -/
def compareBytes : List UInt8 → List UInt8 → Int
  | [], [] => 0
  | [], b :: _ => -b.toNat
  | a :: _, [] => a.toNat
  | a :: as, b :: bs => if a = b then compareBytes as bs else a.toNat - b.toNat

/-- `strcmp(left, right)`. -/
def strcmp (left right : CString) : Int :=
  compareBytes left.bytes right.bytes

/-- `strlen`. -/
def strlen (text : CString) : Nat :=
  text.bytes.length

/-- Exchanging the arguments negates the comparison. -/
theorem compareBytes_swap (left right : List UInt8) :
    compareBytes right left = -compareBytes left right := by
  induction left generalizing right with
  | nil => cases right <;> simp [compareBytes]
  | cons a as ih =>
      cases right with
      | nil => simp [compareBytes]
      | cons b bs =>
          by_cases hab : a = b
          · simp [compareBytes, hab, ih]
          · simp only [compareBytes, hab, Ne.symm hab, if_false]
            omega

/-- Only equal byte strings compare equal. -/
theorem compareBytes_eq_zero {left right : List UInt8} (hleft : 0 ∉ left) (hright : 0 ∉ right) :
    compareBytes left right = 0 ↔ left = right := by
  have hpos : ∀ {a : UInt8}, a ≠ 0 → a.toNat ≠ 0 := fun ha h => ha (UInt8.toNat_inj.1 h)
  induction left generalizing right with
  | nil =>
      cases right with
      | nil => simp [compareBytes]
      | cons b bs =>
          have hb := hpos (Ne.symm (List.ne_of_not_mem_cons hright))
          simp [compareBytes]
          omega
  | cons a as ih =>
      cases right with
      | nil =>
          have ha := hpos (Ne.symm (List.ne_of_not_mem_cons hleft))
          simp [compareBytes]
          omega
      | cons b bs =>
          by_cases hab : a = b
          · simp [compareBytes, hab, ih (List.not_mem_of_not_mem_cons hleft)
              (List.not_mem_of_not_mem_cons hright)]
          · have hne : a.toNat ≠ b.toNat := fun h => hab (UInt8.toNat_inj.1 h)
            simp only [compareBytes, hab, if_false, List.cons.injEq, false_and, iff_false]
            omega

/-- The comparison is transitive. -/
theorem compareBytes_trans {left middle right : List UInt8} (hleft : 0 ∉ left)
    (hmiddle : 0 ∉ middle) (h : compareBytes left middle ≤ 0)
    (h' : compareBytes middle right ≤ 0) : compareBytes left right ≤ 0 := by
  have hpos : ∀ {a : UInt8}, a ≠ 0 → a.toNat ≠ 0 := fun ha h => ha (UInt8.toNat_inj.1 h)
  induction left generalizing middle right with
  | nil => cases right <;> simp [compareBytes]
  | cons a as ih =>
      have ha := hpos (Ne.symm (List.ne_of_not_mem_cons hleft))
      cases middle with
      | nil => simp [compareBytes] at h; omega
      | cons b bs =>
          have hb := hpos (Ne.symm (List.ne_of_not_mem_cons hmiddle))
          cases right with
          | nil => simp [compareBytes] at h'; omega
          | cons c cs =>
              by_cases hab : a = b <;> by_cases hbc : b = c
              · subst hab hbc
                simp only [compareBytes, if_true] at h h' ⊢
                exact ih (List.not_mem_of_not_mem_cons hleft)
                  (List.not_mem_of_not_mem_cons hmiddle) h h'
              · subst hab
                simpa [compareBytes, hbc] using h'
              · subst hbc
                simpa [compareBytes, hab] using h
              · have hab' : a.toNat ≠ b.toNat := fun h => hab (UInt8.toNat_inj.1 h)
                simp only [compareBytes, hab, hbc, if_false] at h h'
                have hac : a ≠ c := fun heq => by subst heq; omega
                simp only [compareBytes, hac, if_false]
                omega

/-- C strings in `strcmp` order. -/
instance : LinearOrder CString where
  le left right := strcmp left right ≤ 0
  le_refl text := Int.le_of_eq ((compareBytes_eq_zero text.terminated text.terminated).2 rfl)
  le_trans left middle _ h h' := compareBytes_trans left.terminated middle.terminated h h'
  le_antisymm left right h h' := by
    obtain ⟨lbytes, hl⟩ := left
    obtain ⟨rbytes, hr⟩ := right
    have hswap := compareBytes_swap lbytes rbytes
    have hzero : compareBytes lbytes rbytes = 0 := by
      simp only [strcmp] at h h'
      omega
    simpa using (compareBytes_eq_zero hl hr).1 hzero
  le_total left right := by
    have hswap := compareBytes_swap left.bytes right.bytes
    simp only [strcmp]
    omega
  toDecidableLE left right := inferInstanceAs (Decidable (strcmp left right ≤ 0))

/-- `strcmp` is nonpositive exactly on ordered strings. -/
theorem strcmp_le_zero_iff {left right : CString} : strcmp left right ≤ 0 ↔ left ≤ right :=
  Iff.rfl

/-- `strcmp` is zero exactly on equal strings. -/
theorem strcmp_eq_zero_iff {left right : CString} : strcmp left right = 0 ↔ left = right := by
  obtain ⟨lbytes, hl⟩ := left
  obtain ⟨rbytes, hr⟩ := right
  simpa [strcmp] using compareBytes_eq_zero hl hr

/-- The guard `strcmp(left, right) < 1` of the list loops. -/
theorem strcmp_lt_one_iff {left right : CString} : strcmp left right < 1 ↔ left ≤ right := by
  rw [← strcmp_le_zero_iff]
  omega

end CString

end Coursework
