import Mathlib.Data.Nat.Notation
import Mathlib.Tactic.TypeStar

/-!
# Counting loops

Loops of the form `for (k = start; k != stop; k++)`, with and without a way out of the body. A body
that fails is `none`, and so is a loop whose counter starts above its bound, which it never meets.
`countTo_spec` and `repeatTo_spec` are the rules for total correctness: an invariant that holds at
the start and that every round keeps holds at the end. `walk_induction` is the rule for a loop that
goes along a list.
-/

namespace Coursework.Loops

variable {σ ρ : Type*}

/-- What a round of a loop does: it goes on with a state, or it leaves the loop. -/
inductive Round (σ ρ : Type*) where
  | next (s : σ)
  | leave (r : ρ)

/-- A property of the state after a round, or of what is left with. -/
def Round.Holds (I : σ → Prop) (Q : ρ → Prop) : Round σ ρ → Prop
  | .next s => I s
  | .leave r => Q r

/-- At most `fuel` rounds of a loop with a way out. -/
def countFrom (body : Nat → σ → Option (Round σ ρ)) (stop : Int) :
    (fuel k : Nat) → σ → Option (Round σ ρ)
  | 0, k, s => if k = stop then some (.next s) else none
  | fuel + 1, k, s =>
      if k = stop then some (.next s)
      else do
        match ← body k s with
        | .next s => countFrom body stop fuel (k + 1) s
        | .leave r => some (.leave r)

/-- A loop with a way out. -/
def countTo (body : Nat → σ → Option (Round σ ρ)) (start : Nat) (stop : Int) (s : σ) :
    Option (Round σ ρ) :=
  countFrom body stop (stop - start).toNat start s

/-- At most `fuel` rounds of a loop without a way out. -/
def repeatFrom (body : Nat → σ → Option σ) (stop : Int) : (fuel k : Nat) → σ → Option σ
  | 0, k, s => if k = stop then some s else none
  | fuel + 1, k, s =>
      if k = stop then some s
      else do
        let s ← body k s
        repeatFrom body stop fuel (k + 1) s

/-- A loop without a way out. -/
def repeatTo (body : Nat → σ → Option σ) (start : Nat) (stop : Int) (s : σ) : Option σ :=
  repeatFrom body stop (stop - start).toNat start s

section Rules

variable {start stop : Nat} {I : Nat → σ → Prop} {s : σ}

theorem countFrom_spec {body : Nat → σ → Option (Round σ ρ)} {Q : ρ → Prop} {fuel k : Nat}
    (hround : ∀ k s, start ≤ k → k < stop → I k s →
      ∃ round, body k s = some round ∧ round.Holds (I (k + 1)) Q)
    (hk : start ≤ k) (hfuel : k + fuel = stop) (h : I k s) :
    ∃ round, countFrom body stop fuel k s = some round ∧ round.Holds (I stop) Q := by
  induction fuel generalizing k s with
  | zero =>
      obtain rfl : k = stop := hfuel
      exact ⟨.next s, if_pos rfl, h⟩
  | succ fuel ih =>
      have hlt : k < stop := by omega
      have hne : (k : Int) ≠ stop := by omega
      obtain ⟨round, hbody, hround'⟩ := hround k s hk hlt h
      rw [countFrom, if_neg hne, hbody]
      cases round with
      | next s' => exact ih (by omega) (by omega) hround'
      | leave r => exact ⟨.leave r, rfl, hround'⟩

/-- An invariant of a loop with a way out, and what holds when it is left. -/
theorem countTo_spec (body : Nat → σ → Option (Round σ ρ)) (start stop : Nat) (s : σ)
    (I : Nat → σ → Prop) (Q : ρ → Prop) (hle : start ≤ stop) (h : I start s)
    (hround : ∀ k s, start ≤ k → k < stop → I k s →
      ∃ round, body k s = some round ∧ round.Holds (I (k + 1)) Q) :
    ∃ round, countTo body start stop s = some round ∧ round.Holds (I stop) Q :=
  countFrom_spec hround (Nat.le_refl start) (by omega) h

theorem repeatFrom_spec {body : Nat → σ → Option σ} {fuel k : Nat}
    (hround : ∀ k s, start ≤ k → k < stop → I k s → ∃ s', body k s = some s' ∧ I (k + 1) s')
    (hk : start ≤ k) (hfuel : k + fuel = stop) (h : I k s) :
    ∃ s', repeatFrom body stop fuel k s = some s' ∧ I stop s' := by
  induction fuel generalizing k s with
  | zero =>
      obtain rfl : k = stop := hfuel
      exact ⟨s, if_pos rfl, h⟩
  | succ fuel ih =>
      have hlt : k < stop := by omega
      have hne : (k : Int) ≠ stop := by omega
      obtain ⟨s', hbody, hs'⟩ := hround k s hk hlt h
      rw [repeatFrom, if_neg hne, hbody]
      exact ih (by omega) (by omega) hs'

/-- An invariant of a loop without a way out. -/
theorem repeatTo_spec (body : Nat → σ → Option σ) (start stop : Nat) (s : σ)
    (I : Nat → σ → Prop) (hle : start ≤ stop) (h : I start s)
    (hround : ∀ k s, start ≤ k → k < stop → I k s → ∃ s', body k s = some s' ∧ I (k + 1) s') :
    ∃ s', repeatTo body start stop s = some s' ∧ I stop s' :=
  repeatFrom_spec hround (Nat.le_refl start) (by omega) h

end Rules

/-! ## Bodies and rounds -/

theorem countFrom_congr {body body' : Nat → σ → Option (Round σ ρ)} {stop : Int} {fuel k : Nat}
    (hbody : ∀ (k : Nat) (s : σ), (k : Int) < stop → body k s = body' k s)
    (hfuel : k + fuel ≤ stop) (s : σ) :
    countFrom body stop fuel k s = countFrom body' stop fuel k s := by
  induction fuel generalizing k s with
  | zero => rfl
  | succ fuel ih =>
      have hlt : (k : Int) < stop := by omega
      rw [countFrom, countFrom, if_neg (Int.ne_of_lt hlt), if_neg (Int.ne_of_lt hlt),
        hbody k s hlt]
      cases body' k s with
      | none => rfl
      | some round =>
          cases round with
          | next s' => exact ih (by omega) s'
          | leave r => rfl

/-- A loop depends on what its body does below the bound only. -/
theorem countTo_congr {body body' : Nat → σ → Option (Round σ ρ)} {start : Nat} {stop : Int}
    (hbody : ∀ (k : Nat) (s : σ), (k : Int) < stop → body k s = body' k s) (hle : start ≤ stop)
    (s : σ) :
    countTo body start stop s = countTo body' start stop s :=
  countFrom_congr hbody (by omega) s

theorem exists_round_of_repeatFrom {body : Nat → σ → Option σ} {stop : Int} {fuel k : Nat}
    {s s' : σ} (h : repeatFrom body stop fuel k s = some s') {j : Nat} (hkj : k ≤ j)
    (hj : (j : Int) < stop) : ∃ before after, body j before = some after := by
  induction fuel generalizing k s with
  | zero =>
      rw [repeatFrom] at h
      split at h
      · omega
      · cases h
  | succ fuel ih =>
      rw [repeatFrom, if_neg (by omega)] at h
      obtain ⟨s₁, hbody, hrest⟩ := Option.bind_eq_some_iff.1 h
      rcases Nat.eq_or_lt_of_le hkj with rfl | hlt
      · exact ⟨s, s₁, hbody⟩
      · exact ih hrest hlt

/-- All rounds of a loop that ends are done. -/
theorem exists_round_of_repeatTo {body : Nat → σ → Option σ} {start : Nat} {stop : Int}
    {s s' : σ} (h : repeatTo body start stop s = some s') {j : Nat} (hstart : start ≤ j)
    (hj : (j : Int) < stop) : ∃ before after, body j before = some after :=
  exists_round_of_repeatFrom h hstart hj

/-- A counter above the bound never meets it. -/
theorem countTo_above (body : Nat → σ → Option (Round σ ρ)) {start : Nat} {stop : Int}
    (hlt : stop < start) (s : σ) : countTo body start stop s = none := by
  have hfuel : (stop - start).toNat = 0 := by omega
  rw [countTo, hfuel, countFrom, if_neg (by omega)]

/-! ## Walks -/

/-- Induction for a loop that passes the elements of a list one by one, with a round for each of
them and one more for the end. -/
@[elab_as_elim]
theorem walk_induction {motive : (l : List σ) → (fuel : Nat) → l.length < fuel → Prop}
    (nil : ∀ fuel, motive [] (fuel + 1) (Nat.succ_pos fuel))
    (cons : ∀ x l fuel (hfuel : l.length < fuel), motive l fuel hfuel →
      motive (x :: l) (fuel + 1) (Nat.succ_lt_succ hfuel))
    {l : List σ} {fuel : Nat} (hfuel : l.length < fuel) : motive l fuel hfuel := by
  induction l generalizing fuel with
  | nil =>
      obtain ⟨fuel, rfl⟩ := Nat.exists_eq_add_one_of_ne_zero (Nat.ne_zero_of_lt hfuel)
      exact nil fuel
  | cons x l ih =>
      obtain ⟨fuel, rfl⟩ := Nat.exists_eq_add_one_of_ne_zero (Nat.ne_zero_of_lt hfuel)
      exact cons x l fuel (Nat.lt_of_succ_lt_succ hfuel) (ih _)

end Coursework.Loops
