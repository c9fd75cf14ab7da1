import Coursework.OilField.Barrels

/-!
# Squirts

A squirt annoys only actors whose animate flag is set, and in `m_actors` there are none
(`Sound.inanimate`), so no squirt ever hits a protester.
Vocabulary and scope: `Coursework.OilField.Game`.
-/

namespace Coursework.OilField

open StudentWorld

/-- A regular protester that does not leave, within distance `3` of the squirt `a`. -/
def Target (a b : Actor) (p : RegularProtestor) : Prop :=
  b.kind = .regularProtestor p ∧ b.state ≠ .exiting ∧ within 3 a.x a.y b.x b.y = true

/-- The protester `b` is hit: it loses two hit points, and if none are left, it gives up and gets
an exit path. -/
def IsHit (w : StudentWorld) (b : Actor) (p : RegularProtestor) (b' : Actor) : Prop :=
  ∃ p', b'.kind = .regularProtestor p' ∧ p'.hitPoints = p.hitPoints - 2 ∧
    (p'.hitPoints ≤ 0 → b'.state = .exiting ∧
      (w.createPath b.x b.y p.exitPath).map Prod.fst = some p'.exitPath)

/-- The step of the squirt `a` at position `n`, from `w` to `w'`, hits its targets and no other
protester, and uses up the squirt if there are any. -/
structure SquirtWorks (w : StudentWorld) (n : Nat) (a : Actor) (w' : StudentWorld) : Prop where
  hits : ∀ (i : Nat) b p, w.actors[i]? = some b → Target a b p →
    (∃ b', w'.actors[i]? = some b' ∧ IsHit w b p b') ∧
      ∃ a', w'.actors[n]? = some a' ∧ a'.state = .dead
  misses : ∀ (i : Nat) b p, w.actors[i]? = some b → b.kind = .regularProtestor p →
    within 3 a.x a.y b.x b.y = false → w'.actors[i]? = some b

variable {w w' w'' : StudentWorld} {a : Actor} {tick : Tick} {n : Nat}

/-- A loop over actors none of which is hit changes nothing. -/
theorem annoyActors_eq_of_not_hit {hit : Actor → Bool} (damage : Int) (n : Nat)
    (h : ∀ a ∈ w.actors, hit a = false) : annoyActors hit damage n w = some (false, w) := by
  induction n with
  | zero => rfl
  | succ n ih =>
      unfold annoyActors
      simp only [ih, Option.bind_eq_bind, Option.bind_some]
      split
      · rfl
      · next a ha => rw [if_neg (by rw [h a (List.mem_of_getElem? ha)]; exact Bool.false_ne_true)]

/-- No squirt hits anyone. -/
theorem hitBySquirt_eq (hw : Sound w) (x y : Int) : w.hitBySquirt x y = some (false, w) := by
  refine annoyActors_eq_of_not_hit 2 w.actors.length fun a ha => ?_
  rw [hw.inanimate a ha, Bool.false_and]

/-- The step of a squirt changes the squirt only. -/
theorem waterSquirt_eq {travelDistance : Int} (hw : Sound w)
    (h : WaterSquirt.doSomething w n a travelDistance = some w') :
    ∃ a', w' = w.setActor n a' := by
  unfold WaterSquirt.doSomething at h
  rw [hitBySquirt_eq hw] at h
  simp only [Option.bind_eq_bind, Option.bind_some, Bool.false_eq_true, if_false] at h
  split at h
  · cases h
    exact ⟨_, rfl⟩
  · cases h
    exact ⟨_, rfl⟩

/-- The step of a live squirt leaves every protester as it was. -/
theorem askActor_squirt_keeps {travelDistance : Int} (hw : Sound w)
    (ha : w.actors[n]? = some a) (hkind : a.kind = .waterSquirt travelDistance)
    (hlive : a.state ≠ .dead) (h : w.askActor n = some w') {i : Nat} {b : Actor}
    {p : RegularProtestor} (hb : w.actors[i]? = some b)
    (hprotester : b.kind = .regularProtestor p) :
    w'.actors[i]? = some b := by
  unfold askActor at h
  simp only [ha, if_neg hlive] at h
  unfold Actor.doSomething at h
  rw [hkind] at h
  obtain ⟨a', rfl⟩ := waterSquirt_eq hw h
  have hne : n ≠ i := by
    intro heq
    rw [← heq, ha, Option.some.injEq] at hb
    rw [← hb, hkind] at hprotester
    cases hprotester
  show (w.actors.set n a')[i]? = some b
  rw [List.getElem?_set_ne hne, hb]

/-- The actors that are asked before are asked in a sound world. -/
theorem asked_sound (h : Reachable w) (hasked : Asked w tick n w') : Sound w' :=
  during_sound (.asked n hasked) (reachable_sound h)

/-- In every tick of every run the step of a live squirt works if and only if it has no target. -/
theorem squirtWorks_iff {travelDistance : Int} (hreachable : Reachable w)
    (hasked : Asked w tick n w') (ha : w'.actors[n]? = some a)
    (hkind : a.kind = .waterSquirt travelDistance) (hlive : a.state ≠ .dead)
    (hstep : w'.askActor n = some w'') :
    SquirtWorks w' n a w'' ↔ ∀ b ∈ w'.actors, ∀ p, ¬ Target a b p := by
  have hkeeps : ∀ (i : Nat) b p, w'.actors[i]? = some b → b.kind = .regularProtestor p →
      w''.actors[i]? = some b := fun i b p hb hprotester =>
    askActor_squirt_keeps (asked_sound hreachable hasked) ha hkind hlive hstep hb hprotester
  constructor
  · intro hworks b hb p htarget
    obtain ⟨i, hi⟩ := List.mem_iff_getElem?.1 hb
    obtain ⟨⟨b', hb', p', hkind', hpoints, -⟩, -⟩ := hworks.hits i b p hi htarget
    rw [hkeeps i b p hi htarget.1, Option.some.injEq] at hb'
    subst hb'
    rw [htarget.1, Kind.regularProtestor.injEq] at hkind'
    subst hkind'
    omega
  · intro hnone
    refine ⟨fun i b p hb htarget => ?_, fun i b p hb hprotester _ => hkeeps i b p hb hprotester⟩
    exact absurd htarget (hnone b (List.mem_of_getElem? hb) p)

/-- A squirt of the first tick, with no protester close. -/
theorem firstSquirt_works : ∃ w' a w'', w'.actors[7]? = some a ∧ w'.askActor 7 = some w'' ∧
    (SquirtWorks w' 7 a w'' ↔ ∀ b ∈ w'.actors, ∀ p, ¬ Target a b p) := by
  have hrun : (do
      let w' ← askActors 7 (firstLevel.playerTurn (keyTick .space))
      let w'' ← w'.askActor 7
      some (w'.actors[7]?, w''.barrelsLeft)) =
      some (some (WaterSquirt.new 34 60 .right), 2) := by decide +kernel
  obtain ⟨w', hasked, hrun⟩ := Option.bind_eq_some_iff.1 hrun
  obtain ⟨w'', hstep, hrun⟩ := Option.bind_eq_some_iff.1 hrun
  have ha := (Prod.mk.inj (Option.some.inj hrun)).1
  exact ⟨w', _, w'', ha, hstep, squirtWorks_iff reachable_firstLevel
    ⟨by decide, by decide, hasked⟩ ha rfl (by decide) hstep⟩

/-- The player walks eleven squares to the right and squirts at the protester, three squares away:
the protester keeps its hit points. -/
theorem squirt_misses : ∃ w w' a w'', Reachable w ∧ Asked w (keyTick .space) 7 w' ∧
    w'.actors[7]? = some a ∧ a.kind = .waterSquirt 4 ∧ a.state ≠ .dead ∧
    w'.askActor 7 = some w'' ∧ ¬ SquirtWorks w' 7 a w'' := by
  have hrun : (do
      let w ← play (fun _ _ => true) (List.replicate 11 (keyTick .right)) firstLevel
      let w' ← askActors 7 (w.playerTurn (keyTick .space))
      let w'' ← w'.askActor 7
      some ((w.tunnelMan.state, (w.playerTurn (keyTick .space)).barrelsLeft),
        (w'.actors[7]?, w'.actors[6]?), w''.actors[6]?)) =
      some ((.alive, 2), (some (WaterSquirt.new 45 60 .right),
          some ⟨48, 60, .left, true, false, .searching, .regularProtestor ⟨false, 5, [], 8, 3, 0⟩⟩),
        some ⟨48, 60, .left, true, false, .searching,
          .regularProtestor ⟨false, 5, [], 8, 3, 0⟩⟩) := by decide +kernel
  obtain ⟨w, hplay, hrun⟩ := Option.bind_eq_some_iff.1 hrun
  obtain ⟨w', hasked, hrun⟩ := Option.bind_eq_some_iff.1 hrun
  obtain ⟨w'', hstep, hrun⟩ := Option.bind_eq_some_iff.1 hrun
  obtain ⟨hworld, hrun⟩ := Prod.mk.inj (Option.some.inj hrun)
  obtain ⟨hactors, hafter⟩ := Prod.mk.inj hrun
  obtain ⟨hstate, hbarrels⟩ := Prod.mk.inj hworld
  obtain ⟨ha, hb⟩ := Prod.mk.inj hactors
  have hplayer : w.tunnelMan.state ≠ .dead := by
    rw [hstate]
    decide
  have hleft : (w.playerTurn (keyTick .space)).barrelsLeft ≠ 0 := by
    rw [hbarrels]
    decide
  refine ⟨w, w', _, w'', reachable_of_play hplay reachable_firstLevel, ⟨hplayer, hleft, hasked⟩,
    ha, rfl, by decide, hstep, fun hworks => ?_⟩
  obtain ⟨⟨b', hb', p', hkind, hpoints, -⟩, -⟩ := hworks.hits 6 _ _ hb ⟨rfl, by decide, by decide⟩
  rw [hafter, Option.some.injEq] at hb'
  subst hb'
  cases hkind
  exact absurd hpoints (by decide)

end Coursework.OilField
