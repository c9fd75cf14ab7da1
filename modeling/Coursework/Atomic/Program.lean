import Mathlib.Data.Set.Function
import Mathlib.Data.Set.Insert
import Mathlib.Logic.Function.Basic
import Mathlib.Order.Lattice.Nat

/-!
# Programs of atomic memory actions

A program assigns to every control point one action: an atomic access of one memory
location, a silent step, a normal halt, or a fault. Loads, stores, test-and-set and
compare-and-swap are all accesses, so the granularity at which threads may interleave is
visible in the program text. The main notion is `Completes`: execution from a state halts
in a state satisfying a postcondition and touches only a given region. A completing
execution is insensitive to the rest of the memory (`Completes.congr`) and survives each
of its own steps (`Completes.next`), which is what a lock needs from its critical section.
-/

namespace Coursework.Atomic

/-- A memory: a partial map from locations to values. Unmapped locations are not allocated. -/
abbrev Memory (Loc Val : Type) := Loc → Option Val

/-- The action of one control point. `access` reads a location and writes it back in one atomic
step; it blocks when `effect` has no result for the value read. `fault` is undefined behavior. -/
inductive Action (Loc Val Ctl : Type) where
  | access (loc : Loc) (effect : Val → Option (Val × Ctl))
  | pass (following : Ctl)
  | halt
  | fault

variable {Loc Val Ctl : Type}

/-- Read a location and continue with the value. -/
@[reducible] def Action.load (loc : Loc) (cont : Val → Ctl) : Action Loc Val Ctl :=
  .access loc fun value => some (value, cont value)

/-- Overwrite a location. -/
@[reducible] def Action.store (loc : Loc) (value : Val) (following : Ctl) :
    Action Loc Val Ctl :=
  .access loc fun _ => some (value, following)

variable [DecidableEq Loc]

/-- One transition of the program. A halted, blocked or faulting control point has none. -/
def next (program : Ctl → Action Loc Val Ctl) (state : Memory Loc Val × Ctl) :
    Option (Memory Loc Val × Ctl) :=
  match program state.2 with
  | .access loc effect => do
      let value ← state.1 loc
      let (stored, following) ← effect value
      pure (Function.update state.1 loc (some stored), following)
  | .pass following => some (state.1, following)
  | .halt => none
  | .fault => none

/-- Execute exactly this many transitions; a missing transition stops the run. -/
def run (program : Ctl → Action Loc Val Ctl) :
    Nat → Memory Loc Val × Ctl → Option (Memory Loc Val × Ctl)
  | 0, state => some state
  | fuel + 1, state => next program state >>= run program fuel

/-- The control point has undefined behavior: an explicit fault or an access of a location that
is not allocated. -/
def Faults (program : Ctl → Action Loc Val Ctl) (memory : Memory Loc Val) (control : Ctl) :
    Prop :=
  match program control with
  | .access loc _ => memory loc = none
  | .fault => True
  | _ => False

/-- Execution without interference halts at `final` with memory `result`. -/
def Returns (program : Ctl → Action Loc Val Ctl) (memory : Memory Loc Val) (control : Ctl)
    (result : Memory Loc Val) (final : Ctl) : Prop :=
  program final = .halt ∧ ∃ fuel, run program fuel (memory, control) = some (result, final)

/-- The number of transitions until execution without interference halts. -/
noncomputable def stepsLeft (program : Ctl → Action Loc Val Ctl) (memory : Memory Loc Val)
    (control : Ctl) : Nat :=
  sInf {fuel | ∃ result final, program final = .halt ∧
    run program fuel (memory, control) = some (result, final)}

/-- A halted control point has no transition. -/
theorem next_eq_none_of_halt {program : Ctl → Action Loc Val Ctl} {memory : Memory Loc Val}
    {control : Ctl} (h : program control = .halt) : next program (memory, control) = none := by
  simp [next, h]

/-- The transition of an access. -/
theorem next_access {program : Ctl → Action Loc Val Ctl} {memory : Memory Loc Val}
    {control following : Ctl} {loc : Loc} {effect : Val → Option (Val × Ctl)} {value stored : Val}
    (h : program control = .access loc effect) (hvalue : memory loc = some value)
    (heffect : effect value = some (stored, following)) :
    next program (memory, control) =
      some (Function.update memory loc (some stored), following) := by
  simp [next, h, hvalue, heffect]

/-- The transition of a silent step. -/
theorem next_pass {program : Ctl → Action Loc Val Ctl} {memory : Memory Loc Val}
    {control following : Ctl} (h : program control = .pass following) :
    next program (memory, control) = some (memory, following) := by
  simp [next, h]

/-- Two executions that halt from the same state halt in the same state. -/
theorem Returns.unique {program : Ctl → Action Loc Val Ctl} {memory left right : Memory Loc Val}
    {control leftFinal rightFinal : Ctl} (hleft : Returns program memory control left leftFinal)
    (hright : Returns program memory control right rightFinal) :
    left = right ∧ leftFinal = rightFinal := by
  obtain ⟨hlhalt, first, hleft⟩ := hleft
  obtain ⟨hrhalt, second, hright⟩ := hright
  induction first generalizing memory control second with
  | zero =>
      cases hleft
      cases second with
      | zero => cases hright; exact ⟨rfl, rfl⟩
      | succ second => simp [run, next_eq_none_of_halt hlhalt] at hright
  | succ first ih =>
      cases hs : next program (memory, control) with
      | none => simp [run, hs] at hleft
      | some following =>
          cases second with
          | zero => cases hright; simp [next_eq_none_of_halt hrhalt] at hs
          | succ second =>
              exact ih (by simpa [run, hs] using hleft) second (by simpa [run, hs] using hright)

/-- A transition never deallocates a location. -/
theorem next_isSome {program : Ctl → Action Loc Val Ctl} {memory updated : Memory Loc Val}
    {control following : Ctl} (h : next program (memory, control) = some (updated, following))
    {loc : Loc} (hloc : (memory loc).isSome) : (updated loc).isSome := by
  cases haction : program control with
  | access accessed effect =>
      simp only [next, haction, bind, Option.bind_eq_some_iff] at h
      obtain ⟨_, _, _, _, heq⟩ := h
      cases heq
      rcases eq_or_ne loc accessed with rfl | hne
      · simp
      · rwa [Function.update_of_ne hne]
  | pass => simp only [next, haction, Option.some.injEq, Prod.mk.injEq] at h; exact h.1 ▸ hloc
  | halt => simp [next, haction] at h
  | fault => simp [next, haction] at h

/-- An execution never deallocates a location. -/
theorem Returns.isSome {program : Ctl → Action Loc Val Ctl} {memory result : Memory Loc Val}
    {control final : Ctl} (h : Returns program memory control result final) {loc : Loc}
    (hloc : (memory loc).isSome) : (result loc).isSome := by
  obtain ⟨-, fuel, hrun⟩ := h
  induction fuel generalizing memory control with
  | zero => cases hrun; exact hloc
  | succ fuel ih =>
      cases hs : next program (memory, control) with
      | none => simp [run, hs] at hrun
      | some following => exact ih (next_isSome hs hloc) (by simpa [run, hs] using hrun)

/-- Execution from this state halts with `post`, accessing only locations of `region`. -/
inductive Completes (program : Ctl → Action Loc Val Ctl) (region : Set Loc)
    (post : Memory Loc Val → Ctl → Prop) : Memory Loc Val → Ctl → Prop where
  | done {memory control} : program control = .halt → post memory control →
      Completes program region post memory control
  | access {memory control loc effect value stored following} :
      program control = .access loc effect → loc ∈ region → memory loc = some value →
      effect value = some (stored, following) →
      Completes program region post (Function.update memory loc (some stored)) following →
      Completes program region post memory control
  | pass {memory control following} : program control = .pass following →
      Completes program region post memory following →
      Completes program region post memory control

namespace Completes

variable {program : Ctl → Action Loc Val Ctl} {region : Set Loc}
  {post : Memory Loc Val → Ctl → Prop} {memory : Memory Loc Val} {control : Ctl}

/-- Execute a load. -/
theorem load {loc : Loc} {cont : Val → Ctl} {value : Val}
    (h : program control = .load loc cont) (hloc : loc ∈ region)
    (hvalue : memory loc = some value)
    (hrest : Completes program region post memory (cont value)) :
    Completes program region post memory control := by
  refine .access h hloc hvalue rfl ?_
  rwa [← hvalue, Function.update_eq_self]

/-- Execute a store to an allocated location. -/
theorem store {loc : Loc} {value old : Val} {following : Ctl}
    (h : program control = .store loc value following) (hloc : loc ∈ region)
    (hold : memory loc = some old)
    (hrest : Completes program region post (Function.update memory loc (some value)) following) :
    Completes program region post memory control :=
  .access h hloc hold rfl hrest

/-- Execute a silent step to a named control point. -/
theorem silent (following : Ctl) (h : program control = .pass following)
    (hrest : Completes program region post memory following) :
    Completes program region post memory control :=
  .pass h hrest

/-- A completing execution is either halted or has a transition, after which it still completes
and which leaves everything outside the region alone. -/
theorem next (h : Completes program region post memory control) :
    (program control = .halt ∧ post memory control) ∨
      ∃ updated following, Atomic.next program (memory, control) = some (updated, following) ∧
        Completes program region post updated following ∧
        ∀ loc ∉ region, updated loc = memory loc := by
  cases h with
  | done hhalt hpost => exact .inl ⟨hhalt, hpost⟩
  | access haction hloc hvalue heffect hrest =>
      refine .inr ⟨_, _, next_access haction hvalue heffect, hrest, fun other hother => ?_⟩
      exact Function.update_of_ne (ne_of_mem_of_not_mem hloc hother).symm ..
  | pass haction hrest => exact .inr ⟨_, _, next_pass haction, hrest, fun _ _ => rfl⟩

/-- A completing execution that has not halted takes the program's transition. -/
theorem next_eq (h : Completes program region post memory control)
    {updated : Memory Loc Val} {following : Ctl}
    (hnext : Atomic.next program (memory, control) = some (updated, following)) :
    Completes program region post updated following ∧
      ∀ loc ∉ region, updated loc = memory loc := by
  rcases h.next with ⟨hhalt, _⟩ | ⟨_, _, heq, hrest, hframe⟩
  · simp [next_eq_none_of_halt hhalt] at hnext
  · cases heq.symm.trans hnext
    exact ⟨hrest, hframe⟩

/-- At a halted control point the postcondition holds. -/
theorem halted (h : Completes program region post memory control)
    (hhalt : program control = .halt) : post memory control := by
  rcases h.next with ⟨_, hpost⟩ | ⟨_, _, heq, _⟩
  · exact hpost
  · simp [next_eq_none_of_halt hhalt] at heq

/-- Memories that agree on the region complete alike, for a postcondition about the region. -/
theorem congr (h : Completes program region post memory control) {other : Memory Loc Val}
    (hagree : Set.EqOn memory other region)
    (hpost : ∀ {left right : Memory Loc Val} {final : Ctl}, Set.EqOn left right region →
      post left final → post right final) :
    Completes program region post other control := by
  induction h generalizing other with
  | done hhalt hdone => exact .done hhalt (hpost hagree hdone)
  | @access memory control loc effect value stored following haction hloc hvalue heffect _ ih =>
      refine .access haction hloc (hagree hloc ▸ hvalue) heffect (ih fun l hl => ?_)
      rcases eq_or_ne l loc with rfl | hne
      · simp
      · simpa [Function.update_of_ne hne] using hagree hl
  | pass haction _ ih => exact .pass haction (ih hagree)

/-- Weaken the postcondition and enlarge the region. -/
theorem mono (h : Completes program region post memory control) {larger : Set Loc}
    {weaker : Memory Loc Val → Ctl → Prop} (hregion : region ⊆ larger)
    (hpost : ∀ memory control, post memory control → weaker memory control) :
    Completes program larger weaker memory control := by
  induction h with
  | done hhalt hdone => exact .done hhalt (hpost _ _ hdone)
  | access haction hloc hvalue heffect _ ih =>
      exact .access haction (hregion hloc) hvalue heffect ih
  | pass haction _ ih => exact .pass haction ih

/-- A completing execution returns, with the postcondition and the outside memory intact. -/
theorem returns (h : Completes program region post memory control) :
    ∃ result final, Returns program memory control result final ∧ post result final ∧
      ∀ loc ∉ region, result loc = memory loc := by
  induction h with
  | done hhalt hpost => exact ⟨_, _, ⟨hhalt, 0, rfl⟩, hpost, fun _ _ => rfl⟩
  | access haction hloc hvalue heffect _ ih =>
      obtain ⟨result, final, ⟨hhalt, fuel, hrun⟩, hpost, hframe⟩ := ih
      refine ⟨result, final, ⟨hhalt, fuel + 1, ?_⟩, hpost, fun other hother => ?_⟩
      · simpa [run, next_access haction hvalue heffect] using hrun
      · rw [hframe other hother]
        exact Function.update_of_ne (ne_of_mem_of_not_mem hloc hother).symm ..
  | pass haction _ ih =>
      obtain ⟨result, final, ⟨hhalt, fuel, hrun⟩, hpost, hframe⟩ := ih
      exact ⟨result, final, ⟨hhalt, fuel + 1, by simpa [run, next_pass haction] using hrun⟩,
        hpost, hframe⟩

/-- Every return of a completing execution satisfies the postcondition and the frame. -/
theorem of_returns (h : Completes program region post memory control)
    {result : Memory Loc Val} {final : Ctl} (hret : Returns program memory control result final) :
    post result final ∧ ∀ loc ∉ region, result loc = memory loc := by
  obtain ⟨_, _, hother, hpost, hframe⟩ := h.returns
  obtain ⟨rfl, rfl⟩ := hret.unique hother
  exact ⟨hpost, hframe⟩

/-- A completing execution is one step shorter after a transition. -/
theorem stepsLeft_next (h : Completes program region post memory control)
    {updated : Memory Loc Val} {following : Ctl}
    (hnext : Atomic.next program (memory, control) = some (updated, following)) :
    stepsLeft program memory control = stepsLeft program updated following + 1 := by
  have hzero : ¬ ∃ result final, program final = .halt ∧
      run program 0 (memory, control) = some (result, final) := by
    rintro ⟨_, _, hhalt, hrun⟩
    cases hrun
    simp [next_eq_none_of_halt hhalt] at hnext
  obtain ⟨result, final, ⟨hhalt, fuel, hrun⟩, -⟩ := h.returns
  have hpos : 1 ≤ stepsLeft program memory control := by
    have hmem := Nat.sInf_mem (s := {fuel | ∃ result final, program final = .halt ∧
      run program fuel (memory, control) = some (result, final)}) ⟨fuel, result, final, hhalt, hrun⟩
    exact Nat.one_le_iff_ne_zero.2 fun heq => hzero (heq ▸ hmem)
  rw [stepsLeft, ← Nat.sInf_add hpos, stepsLeft]
  simp only [run, hnext, bind, Option.bind_some]

/-- Memories that agree on the region have the same number of steps left. -/
theorem stepsLeft_congr (h : Completes program region post memory control)
    {other : Memory Loc Val} (hagree : Set.EqOn memory other region) :
    stepsLeft program memory control = stepsLeft program other control := by
  induction h generalizing other with
  | @done memory control hhalt _ =>
      have hzero : ∀ memory : Memory Loc Val, stepsLeft program memory control = 0 := fun memory =>
        Nat.sInf_eq_zero.2 (.inl ⟨memory, control, hhalt, rfl⟩)
      rw [hzero, hzero]
  | @access memory control loc effect value stored following haction hloc hvalue heffect hrest ih =>
      have hcompletes : Completes program _ (fun _ _ => True) memory control :=
        (Completes.access haction hloc hvalue heffect hrest).mono subset_rfl fun _ _ _ => trivial
      have hcompletes' := hcompletes.congr hagree fun _ h => h
      rw [hcompletes.stepsLeft_next (next_access haction hvalue heffect),
        hcompletes'.stepsLeft_next (next_access haction (hagree hloc ▸ hvalue) heffect)]
      refine congrArg (· + 1) (ih fun l hl => ?_)
      rcases eq_or_ne l loc with rfl | hne
      · simp
      · simpa [Function.update_of_ne hne] using hagree hl
  | pass haction hrest ih =>
      have hcompletes : Completes program _ (fun _ _ => True) _ _ :=
        (Completes.pass haction hrest).mono subset_rfl fun _ _ _ => trivial
      rw [hcompletes.stepsLeft_next (next_pass haction),
        (hcompletes.congr hagree fun _ h => h).stepsLeft_next (next_pass haction), ih hagree]

end Completes

end Coursework.Atomic
