import Coursework.OilField.Effects

/-!
# The removal of dead actors

The loop at the end of `move` steps its iterator back before it erases a dead actor, and forward
again in the loop header. The vector comes out right (`removal_run_eq`), but where the first actor
is dead, the step back forms a value before `begin()`. `erase` leaves `begin()` where it is, so the
values are offsets from it.
Vocabulary and scope: `Removal` of `Coursework.OilField.Game`.
-/

namespace Coursework.OilField

/-- The iterator values that a round dereferences or forms, each with the size of the vector at the
time. -/
def Removal.formed (r : Removal) : List (Int × Nat) :=
  match r.actors[r.actorItr.toNat]? with
  | none => [(r.actorItr, r.actors.length)]
  | some a =>
      if a.state = .dead then
        -- `tempItr`, `ActorItr--`, and `ActorItr++` after the erasure
        [(r.actorItr, r.actors.length), (r.actorItr - 1, r.actors.length),
          (r.actorItr - 1 + 1, r.actors.length - 1)]
      else [(r.actorItr, r.actors.length), (r.actorItr + 1, r.actors.length)]

/-- The values of the first rounds of the loop. -/
def Removal.formedIn : Nat → Removal → List (Int × Nat)
  | 0, _ => []
  | rounds + 1, r =>
      if r.actorItr = r.actors.length then [] else r.formed ++ formedIn rounds r.step

/-- An iterator value in `[begin(), end()]`. -/
def IteratorInRange (v : Int × Nat) : Prop :=
  0 ≤ v.1 ∧ v.1 ≤ v.2

/-- The loop ends, leaves the actors that are not dead in order, deletes the dead ones and no
others, and keeps its iterators in range. -/
def RemovesRight (actors : List Actor) : Prop :=
  ∃ rounds r, Removal.run rounds ⟨actors, 0, []⟩ = some r ∧
    r.actors = (actors.filter fun a => decide (a.state ≠ .dead)) ∧
    r.deleted = (actors.filter fun a => decide (a.state = .dead)) ∧
    ∀ v ∈ Removal.formedIn rounds ⟨actors, 0, []⟩, IteratorInRange v

/-- The values of the loop from a position on, by induction on the actors that are left: once an
actor is kept, the step back stays in the vector. -/
theorem formedIn_inRange (rest kept deleted : List Actor) (rounds : Nat)
    (hfirst : kept ≠ [] ∨ ∀ a, rest.head? = some a → a.state ≠ .dead) :
    ∀ v ∈ Removal.formedIn rounds ⟨kept ++ rest, kept.length, deleted⟩, IteratorInRange v := by
  induction rounds generalizing rest kept deleted with
  | zero => exact fun v hv => (List.not_mem_nil hv).elim
  | succ rounds ih =>
      unfold Removal.formedIn
      split
      · exact fun v hv => (List.not_mem_nil hv).elim
      · next hgoing =>
        cases rest with
        | nil => exact absurd (by rw [List.append_nil]) hgoing
        | cons a rest =>
            have hlength : (kept ++ a :: rest).length = kept.length + (rest.length + 1) := by
              rw [List.length_append, List.length_cons]
            have hcurrent : (kept ++ a :: rest)[((kept.length : Int)).toNat]? = some a := by simp
            intro v hv
            rcases List.mem_append.1 hv with hround | hlater
            · unfold Removal.formed at hround
              rw [hcurrent, hlength] at hround
              simp only at hround
              unfold IteratorInRange
              split at hround
              · next hdead =>
                have hpos : 0 < kept.length := by
                  rcases hfirst with hkept | hlive
                  · exact List.length_pos_iff.2 hkept
                  · exact absurd hdead (hlive a rfl)
                simp only [List.mem_cons, List.not_mem_nil, or_false] at hround
                rcases hround with rfl | rfl | rfl
                all_goals
                  constructor <;> push_cast <;> omega
              · simp only [List.mem_cons, List.not_mem_nil, or_false] at hround
                rcases hround with rfl | rfl
                all_goals
                  constructor <;> push_cast <;> omega
            · by_cases hdead : a.state = .dead
              · have hkept : kept ≠ [] :=
                  hfirst.resolve_right fun hlive => absurd hdead (hlive a rfl)
                refine ih rest kept (deleted ++ [a]) (.inl hkept) v ?_
                rwa [← removal_step_dead hdead]
              · refine ih rest (kept ++ [a]) deleted (.inl (by simp)) v ?_
                rwa [← removal_step_live hdead]

/-- The removal is right if and only if the first actor, if there is one, is not dead. -/
theorem removesRight_iff (actors : List Actor) :
    RemovesRight actors ↔ ∀ a, actors.head? = some a → a.state ≠ .dead := by
  constructor
  · intro h a ha hdead
    obtain ⟨rounds, r, hrun, -, -, hrange⟩ := h
    cases actors with
    | nil => cases ha
    | cons b rest =>
        cases ha
        cases rounds with
        | zero =>
            have hnone : Removal.run 0 ⟨a :: rest, 0, []⟩ = none := if_neg (by simp; omega)
            rw [hnone] at hrun
            cases hrun
        | succ rounds =>
            have hgoing : ¬ (0 : Int) = (a :: rest).length := by
              rw [List.length_cons]
              omega
            have hformed : (0 - 1, (a :: rest).length) ∈
                Removal.formedIn (rounds + 1) ⟨a :: rest, 0, []⟩ := by
              unfold Removal.formedIn
              rw [if_neg hgoing]
              refine List.mem_append_left _ ?_
              show _ ∈ (if a.state = .dead then _ else _)
              rw [if_pos hdead]
              exact List.mem_cons_of_mem _ List.mem_cons_self
            have hbefore : (0 : Int) ≤ 0 - 1 := (hrange _ hformed).1
            omega
  · intro h
    refine ⟨actors.length, _, removal_run_eq actors [] [] actors.length (Nat.le_refl _), rfl, rfl,
      ?_⟩
    exact formedIn_inRange actors [] [] actors.length (.inr h)

/-- With a dead first actor the loop forms the value before `begin()`. -/
theorem deadBarrel_not_removesRight :
    ¬ RemovesRight [(Barrel.new 20 20).setState .dead, Barrel.new 40 20] := by
  intro h
  obtain ⟨rounds, r, hrun, -, -, hrange⟩ := h
  cases rounds with
  | zero => cases hrun
  | succ rounds =>
      have hfirst := hrange (-1, 2) (List.mem_append_left _ (by decide))
      exact absurd hfirst.1 (by decide)

end Coursework.OilField
