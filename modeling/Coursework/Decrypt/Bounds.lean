import Coursework.Decrypt.Rows

/-!
# Accesses inside the arrays

`createWordArray` stays inside the text unless a newline is its first character
(`createWordArray_isSome`, `createWordArray_eq_none`), whatever the rows come to: no row passes the
end of more than one word.
Vocabulary and scope: `Coursework.Decrypt.Rows`.
-/

namespace Coursework.Decrypt

section Letters

theorem countWords_cons_letter {a : Char} (ha : a.isAlpha = true) {l : List Char}
    (hl : ∀ c ∈ l.head?, c.isAlpha = false) : countWords (a :: l) = countWords l + 1 := by
  have hany : l.head?.any Char.isAlpha = false := by
    cases l with
    | nil => rfl
    | cons c l => exact hl c rfl
  rw [countWords_cons, ha, hany, Nat.add_comm]
  rfl

theorem countWords_cons_inner {a c : Char} (hc : c.isAlpha = true) (l : List Char) :
    countWords (a :: c :: l) = countWords (c :: l) := by
  rw [countWords_cons]
  simp [hc]

theorem countWords_cons_other {a : Char} (ha : a.isAlpha = false) (l : List Char) :
    countWords (a :: l) = countWords l := by
  rw [countWords_cons]
  simp [ha]

end Letters

section Rows

variable (front : List Char) {l : List Char} (cells : List Char)

/-- A row that ends with a letter of the last word in front ends at once. -/
theorem fillRow_ends {x : Char} (hx : x.isAlpha = true) (hfront : front.getLast? = some x)
    (hcells : cells.getLast? = some x) (hl : ∀ c ∈ l.head?, c.isAlpha = false) (columns : Nat) :
    ∃ passed k, fillRow (front ++ l) columns cells front.length =
      some (passed, front.length + k) ∧ countWords (l.drop k) = countWords l := by
  cases columns with
  | zero => exact ⟨cells, 0, rfl, rfl⟩
  | succ columns =>
      refine ⟨_, 1, fillRow_last front hx hfront hcells hl columns, ?_⟩
      cases l with
      | nil => rfl
      | cons c l => exact (countWords_cons_other (hl c rfl) l).symm

/-- A row passes the end of at most one word. -/
theorem fillRow_isSome (hstart : front = [] → cells = [] ∧ l.head? ≠ some '\n')
    (hword : 0 < countWords l) (columns : Nat) :
    ∃ passed k, fillRow (front ++ l) columns cells front.length =
      some (passed, front.length + k) ∧ countWords l ≤ countWords (l.drop k) + 1 := by
  induction columns generalizing front l cells with
  | zero => exact ⟨cells, 0, rfl, Nat.le_succ _⟩
  | succ columns ih =>
      cases l with
      | nil => exact absurd hword (Nat.lt_irrefl 0)
      | cons c l =>
          have hcstring : front ++ c :: l = front ++ [c] ++ l := by simp
          have hplace : (front ++ [c]).length = front.length + 1 := List.length_append
          -- the row goes on behind a character that ends no word
          have hgo (cell : Char) (hcount : countWords (c :: l) = countWords l) :
              ∃ passed k, fillRow (front ++ c :: l) columns (cells ++ [cell]) (front.length + 1) =
                some (passed, front.length + k) ∧
                countWords (c :: l) ≤ countWords ((c :: l).drop k) + 1 := by
            obtain ⟨passed, k, hrow, hle⟩ := ih (front ++ [c]) (cells ++ [cell]) (by simp)
              (hcount ▸ hword)
            rw [← hcstring, hplace, Nat.add_assoc, Nat.add_comm 1 k] at hrow
            exact ⟨passed, k + 1, hrow, hcount ▸ hle⟩
          cases hc : c.isAlpha with
          | true =>
              rw [fillRow, charAt_front]
              simp only [Option.bind_eq_bind, Option.bind_some, hc, if_true]
              by_cases hl : ∀ a ∈ l.head?, a.isAlpha = false
              · obtain ⟨passed, k, hrow, hcount⟩ := fillRow_ends (front ++ [c]) (cells ++ [c]) hc
                  (by simp) (by simp) hl columns
                rw [← hcstring, hplace, Nat.add_assoc, Nat.add_comm 1 k] at hrow
                refine ⟨passed, k + 1, hrow, ?_⟩
                rw [countWords_cons_letter hc hl, List.drop_succ_cons, hcount]
              · refine hgo c ?_
                cases l with
                | nil => simp at hl
                | cons a l => exact countWords_cons_inner (by simpa using hl) l
          | false =>
              have hcount := countWords_cons_other hc l
              have hends (cell : Char) :
                  ∃ passed k, some (cells ++ [cell], front.length + 1) =
                    some (passed, front.length + k) ∧
                    countWords (c :: l) ≤ countWords ((c :: l).drop k) + 1 :=
                ⟨_, 1, rfl, by rw [hcount]; exact Nat.le_succ _⟩
              rw [fillRow, charAt_front, charBefore_front]
              simp only [Option.bind_eq_bind, Option.bind_some, hc, Bool.false_eq_true, if_false]
              by_cases hnil : front = []
              · obtain ⟨hcells, hhead⟩ := hstart hnil
                have hnewline : c ≠ '\n' := fun h => hhead (congrArg some h)
                rw [if_neg hnewline, if_pos (.inl hcells)]
                exact hgo '.' hcount
              · rw [List.getLast?_eq_some_getLast hnil]
                simp only [Option.bind_some]
                split_ifs
                · exact hends '*'
                · exact hgo '*' hcount
                · exact hgo '.' hcount
                · exact hends '\x00'
                · exact hgo '\x00' hcount

theorem fillRows_isSome {rows : Nat} (hstart : front = [] → l.head? ≠ some '\n')
    (hrows : rows ≤ countWords l) :
    ∃ array, fillRows (front ++ l) rows front.length = some array := by
  induction rows generalizing front l with
  | zero => exact ⟨[], rfl⟩
  | succ rows ih =>
      obtain ⟨passed, k, hrow, hle⟩ := fillRow_isSome front []
        (fun hnil => ⟨rfl, hstart hnil⟩) (Nat.zero_lt_of_lt hrows) nCols
      rw [fillRows, hrow]
      simp only [Option.bind_eq_bind, Option.bind_some]
      cases rows with
      | zero => exact ⟨_, rfl⟩
      | succ rows =>
          -- a further row starts inside the text
          have hk : k < l.length := by
            by_contra hk
            rw [List.drop_eq_nil_of_le (Nat.le_of_not_lt hk)] at hle
            have hzero : countWords [] = 0 := rfl
            omega
          have hfront : front ++ l.take k = [] → (l.drop k).head? ≠ some '\n' := by
            intro hnil
            obtain ⟨hfront, htake⟩ := List.append_eq_nil_iff.mp hnil
            rcases List.take_eq_nil_iff.mp htake with hk0 | hl
            · rw [hk0, List.drop_zero]
              exact hstart hfront
            · simp [hl]
          obtain ⟨array, harray⟩ := ih _ hfront (Nat.succ_le_succ_iff.mp (hrows.trans hle))
          rw [List.append_assoc, List.take_append_drop, List.length_append, List.length_take,
            Nat.min_eq_left hk.le] at harray
          rw [harray]
          exact ⟨_, rfl⟩

end Rows

/-- The word array is made without an access outside the text. -/
theorem createWordArray_isSome {cstring : List Char}
    (hstart : countWords cstring = 0 ∨ cstring.head? ≠ some '\n') :
    ∃ array, createWordArray cstring = some array := by
  rcases hstart with hzero | hstart
  · exact ⟨[], by rw [createWordArray, hzero]; rfl⟩
  · exact fillRows_isSome [] (fun _ => hstart) (Nat.le_refl _)

/-- The character in front of a newline at the start of the text is read. -/
theorem createWordArray_eq_none {cstring : List Char} (hwords : countWords cstring ≠ 0)
    (hstart : cstring.head? = some '\n') : createWordArray cstring = none := by
  obtain ⟨rows, hrows⟩ := Nat.exists_eq_succ_of_ne_zero hwords
  obtain ⟨l, rfl⟩ : ∃ l, cstring = '\n' :: l := by
    cases cstring with
    | nil => cases hstart
    | cons c l => exact ⟨l, congrArg (· :: l) (Option.some_inj.mp hstart)⟩
  rw [createWordArray, hrows]
  rfl

end Coursework.Decrypt
