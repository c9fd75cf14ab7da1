import Coursework.OilField.Falling

/-!
# The ticks of a boulder

A tick of the game asks a boulder once, and the rest of the tick leaves it as it is and adds no
Earth (`move_asks_once`). The boulders of a level that `init` starts are as in
`boulder_falls_right` (`started_rock`).
Vocabulary and scope: `Coursework.OilField.Game`, and `Coursework.OilField.Falling`.
-/

namespace Coursework.OilField

open StudentWorld TunnelMan

/-- The ground stays, and the boulders but for that at position `i`. -/
structure Quiet (i : Nat) (w w' : StudentWorld) : Prop where
  ground : w'.ground = w.ground
  rocks : ∀ n, i ≠ n → w'.rockAt n = w.rockAt n

variable {w w' w'' : StudentWorld} {a a' : Actor} {r : Rock} {n i : Nat}

/-! ## The turns of the other actors -/

/-- The actor at a position changes. -/
theorem quiet_set (hground : w'.ground = w.ground) (hactors : w'.actors = w.actors.set i a) :
    Quiet i w w' := by
  refine ⟨hground, fun n hn => ?_⟩
  unfold rockAt
  rw [hactors, List.getElem?_set_ne hn]

/-- Nothing changes. -/
theorem quiet_of_actors (hground : w'.ground = w.ground) (hactors : w'.actors = w.actors) :
    Quiet i w w' := by
  refine ⟨hground, fun n _ => ?_⟩
  unfold rockAt
  rw [hactors]

/-- One change after another. -/
theorem Quiet.trans (h : Quiet i w w') (h' : Quiet i w' w'') : Quiet i w w'' :=
  ⟨h'.ground.trans h.ground, fun n hn => (h'.rocks n hn).trans (h.rocks n hn)⟩

/-- The turn of a boulder. -/
theorem boulder_quiet {waitClock : Int} (h : Boulder.doSomething w i a waitClock = some w') :
    Quiet i w w' := by
  unfold Boulder.doSomething at h
  simp only at h
  split at h
  · split at h
    · cases h
      exact quiet_set rfl rfl
    · obtain ⟨mid, hcrush, h⟩ := Option.bind_eq_some_iff.1 h
      cases h
      obtain ⟨hground, hrock, -⟩ := crushedByRock_rock hcrush
      have hmid : Quiet i w mid := ⟨hground, fun n _ => hrock n⟩
      exact hmid.trans (quiet_set rfl rfl)
  · cases h
    exact quiet_set rfl rfl

/-- The turn of a barrel. -/
theorem barrel_quiet (w : StudentWorld) (i : Nat) (a : Actor) :
    Quiet i w (Barrel.doSomething w i a) := by
  unfold Barrel.doSomething
  split
  · exact quiet_of_actors rfl rfl
  · split
    · exact quiet_set rfl rfl
    · split
      · exact quiet_set rfl rfl
      · exact quiet_of_actors rfl rfl

/-- The turn of a goodie with a clock. -/
theorem goodie_quiet (w : StudentWorld) (i : Nat) (a : Actor) (clock : Int) (kind : Int → Kind)
    (points : Int) (gain : TunnelMan → TunnelMan) :
    Quiet i w (Goodie.doSomething w i a clock kind points gain) := by
  unfold Goodie.doSomething
  simp only
  generalize (if clock = 0 then a.setState .dead else a) = b
  split
  · exact quiet_set rfl rfl
  · split
    · exact quiet_set rfl rfl
    · split
      · exact quiet_set rfl rfl
      · exact quiet_set rfl rfl

/-- The turn of a nugget. -/
theorem goldenNugget_quiet (w : StudentWorld) (i : Nat) (a : Actor) (isBribeOffer : Bool)
    (waitClock : Int) : Quiet i w (GoldenNugget.doSomething w i a isBribeOffer waitClock) := by
  unfold GoldenNugget.doSomething
  split
  · exact quiet_of_actors rfl rfl
  · split
    · exact quiet_set rfl rfl
    · split
      · exact quiet_set rfl rfl
      · split
        · exact quiet_set rfl rfl
        · exact quiet_of_actors rfl rfl

/-- The turn of a squirt. -/
theorem waterSquirt_quiet {travelDistance : Int}
    (h : WaterSquirt.doSomething w i a travelDistance = some w') : Quiet i w w' := by
  unfold WaterSquirt.doSomething at h
  obtain ⟨⟨contact, mid⟩, hmid, h⟩ := Option.bind_eq_some_iff.1 h
  obtain ⟨hground, hrock⟩ := annoyActors_rock hmid
  have hquiet : Quiet i w mid := ⟨hground, fun n _ => hrock n⟩
  simp only at h
  generalize (if contact = true then a.setState .dead else a) = b at h
  split at h
  · cases h
    exact hquiet.trans (quiet_set rfl rfl)
  · cases h
    exact hquiet.trans (quiet_set rfl rfl)

/-- A new direction leaves the ground. -/
theorem pickNewDirection_ground (h : a.pickNewDirection w = some (a', w')) :
    w'.ground = w.ground := by
  unfold Actor.pickNewDirection at h
  obtain ⟨⟨b, draws⟩, -, h⟩ := Option.bind_eq_some_iff.1 h
  cases h
  rfl

/-- The end of a protester's turn leaves the ground. -/
theorem moveOrTurn_ground (h : a.moveOrTurn w = some (a', w')) : w'.ground = w.ground := by
  unfold Actor.moveOrTurn at h
  split at h
  · cases h
    rfl
  · exact pickNewDirection_ground h

/-- Wandering leaves the ground. -/
theorem wander_ground {p p' : RegularProtestor} (h : a.wander w p = some (a', p', w')) :
    w'.ground = w.ground := by
  unfold Actor.wander at h
  simp only at h
  split at h
  · obtain ⟨⟨b, mid⟩, hpick, h⟩ := Option.bind_eq_some_iff.1 h
    obtain ⟨⟨draw, last⟩, hrand, h⟩ := Option.bind_eq_some_iff.1 h
    cases h
    obtain ⟨draws, rfl⟩ := rand_eq hrand
    have hmid := pickNewDirection_ground hpick
    exact hmid
  · obtain ⟨⟨b, mid⟩, hmove, h⟩ := Option.bind_eq_some_iff.1 h
    cases h
    exact moveOrTurn_ground hmove

/-- What a protester does leaves the ground. -/
theorem protest_ground {p p' : RegularProtestor} (h : a.protest w p = some (a', p', w')) :
    w'.ground = w.ground := by
  unfold Actor.protest at h
  simp only at h
  generalize (if p.tick.ticksToWaitBetweenMoves ≤ 0 then a.setState .searching else a) = b at h
  split at h
  · cases h
    rfl
  · split at h
    · cases h
      rfl
    · split at h
      · split at h
        · obtain ⟨⟨c, mid⟩, hmove, h⟩ := Option.bind_eq_some_iff.1 h
          cases h
          exact moveOrTurn_ground hmove
        · cases h
          rfl
      · split at h
        · obtain ⟨⟨c, mid⟩, hmove, h⟩ := Option.bind_eq_some_iff.1 h
          cases h
          refine (moveOrTurn_ground hmove).trans ?_
          -- a shout changes the player only
          unfold Actor.attemptShout
          split
          · rfl
          · split <;> rfl
        · split at h
          · cases h
            rfl
          · exact wander_ground h

/-- The turn of a protester. -/
theorem regularProtestor_quiet {p : RegularProtestor}
    (h : RegularProtestor.doSomething w i a p = some w') : Quiet i w w' := by
  unfold RegularProtestor.doSomething at h
  obtain ⟨⟨b, p', mid⟩, hprotest, h⟩ := Option.bind_eq_some_iff.1 h
  cases h
  have hmid : Quiet i w mid :=
    quiet_of_actors (protest_ground hprotest) (protest_turn hprotest).actors
  exact hmid.trans (quiet_set rfl rfl)

/-- The actor that is asked leaves the ground and the boulders at other positions. -/
theorem askActor_quiet (h : w.askActor i = some w') : Quiet i w w' := by
  unfold askActor at h
  split at h
  · cases h
    exact quiet_of_actors rfl rfl
  · split at h
    · cases h
      exact quiet_of_actors rfl rfl
    · unfold Actor.doSomething at h
      split at h
      · exact boulder_quiet h
      · cases h
        exact barrel_quiet w i _
      · cases h
        exact goodie_quiet w i _ _ _ _ _
      · exact waterSquirt_quiet h
      · cases h
        exact goldenNugget_quiet w i _ _ _
      · cases h
        exact goodie_quiet w i _ _ _ _ _
      · exact regularProtestor_quiet h

/-! ## The parts of a tick -/

/-- Nothing changes for the boulder. -/
theorem spares_of_eq (hground : w'.ground = w.ground) (hrock : w'.rockAt i = w.rockAt n) :
    Spares (w, n) (w', i) := by
  refine ⟨hrock, fun q hearth => ?_⟩
  unfold HasEarth at hearth ⊢
  rwa [← hground]

/-- One change after another. -/
theorem Spares.trans {s s' s'' : StudentWorld × Nat} (h : Spares s s') (h' : Spares s' s'') :
    Spares s s'' :=
  ⟨h'.rock.trans h.rock, fun q hearth => h.ground q (h'.ground q hearth)⟩

/-- Actors are added. -/
theorem spares_append {added : List Actor} (hr : w.rockAt n = some r)
    (hground : w'.ground = w.ground) (hactors : w'.actors = w.actors ++ added) :
    Spares (w, n) (w', n) := by
  refine spares_of_eq hground ?_
  obtain ⟨a, ha, -⟩ := rockAt_eq_some_iff.1 hr
  unfold rockAt
  rw [hactors, List.getElem?_append_left (List.getElem?_eq_some_iff.1 ha).1]

/-- The rounds before the boulder's own. -/
theorem askActors_spares {rounds : Nat} (hrounds : rounds ≤ n)
    (h : askActors rounds w = some w') : Spares (w, n) (w', n) := by
  induction rounds generalizing w' with
  | zero =>
      cases h
      exact spares_of_eq rfl rfl
  | succ rounds ih =>
      obtain ⟨mid, hmid, h⟩ := Option.bind_eq_some_iff.1 h
      have hquiet := askActor_quiet h
      exact (ih (by omega) hmid).trans (spares_of_eq hquiet.ground (hquiet.rocks n (by omega)))

/-- The boulder is asked in one round, and the other rounds spare it. -/
theorem askActors_asks_once {rounds : Nat} (hrounds : n < rounds)
    (h : askActors rounds w = some w') : ∃ before after, Spares (w, n) (before, n) ∧
      before.askActor n = some after ∧ Spares (after, n) (w', n) := by
  induction rounds generalizing w' with
  | zero => exact absurd hrounds (Nat.not_lt_zero n)
  | succ rounds ih =>
      obtain ⟨mid, hmid, h⟩ := Option.bind_eq_some_iff.1 h
      by_cases hown : n = rounds
      · subst hown
        exact ⟨mid, w', askActors_spares (Nat.le_refl n) hmid, h, spares_of_eq rfl rfl⟩
      · obtain ⟨before, after, hbefore, hask, hafter⟩ := ih (by omega) hmid
        have hquiet := askActor_quiet h
        exact ⟨before, after, hbefore, hask,
          hafter.trans (spares_of_eq hquiet.ground (hquiet.rocks n (Ne.symm hown)))⟩

/-- A boulder that is asked stays one. -/
theorem askActor_rockAt (hr : w.rockAt n = some r) (h : w.askActor n = some w') :
    ∃ r', w'.rockAt n = some r' := by
  obtain ⟨a, ha, hrock⟩ := rockAt_eq_some_iff.1 hr
  unfold askActor at h
  rw [ha] at h
  simp only at h
  split at h
  · cases h
    exact ⟨r, hr⟩
  · unfold Actor.doSomething at h
    rw [(rock_eq_some_iff.1 hrock).1] at h
    exact ⟨_, (boulder_rock ha hrock h).2⟩

/-- The removal of dead actors spares a boulder that is not dead. -/
theorem removeDead_spares (hr : w.rockAt n = some r) (hlive : r.state ≠ .dead)
    (h : w.removeDead = some w') : ∃ i, Spares (w, n) (w', i) := by
  obtain ⟨a, ha, hrock⟩ := rockAt_eq_some_iff.1 hr
  rw [removeDead_eq, Option.some.injEq] at h
  have hstate := (rock_eq_some_iff.1 hrock).2.2.2
  have hmem : a ∈ w.actors.filter fun a => decide (a.state ≠ .dead) := by
    refine List.mem_filter.2 ⟨List.mem_of_getElem? ha, decide_eq_true ?_⟩
    rwa [hstate]
  obtain ⟨i, hi⟩ := List.mem_iff_getElem?.1 hmem
  refine ⟨i, spares_of_eq (by rw [← h]) ?_⟩
  rw [← h, hr]
  exact rockAt_eq_some_iff.2 ⟨a, hi, hrock⟩

/-- `addGoodies` adds actors at most. -/
theorem addGoodies_eq (h : w.addGoodies = some w') :
    w'.ground = w.ground ∧ ∃ added, w'.actors = w.actors ++ added := by
  obtain ⟨draws, rfl | ⟨a, -, rfl⟩⟩ := addGoodies_cases h
  · exact ⟨rfl, [], (List.append_nil _).symm⟩
  · exact ⟨rfl, [a], rfl⟩

/-- Digging spares the boulders. -/
theorem digEarth_spares (w : StudentWorld) (n : Nat) (x y : Int) :
    Spares (w, n) (w.digEarth x y, n) := by
  unfold digEarth
  split
  · exact spares_of_eq rfl rfl
  · refine ⟨rfl, fun q hearth => ⟨hearth.1, hearth.2.1, ?_⟩⟩
    have hground := hearth.2.2
    simp only at hground
    split at hground
    · cases hground
    · exact hground

/-- Unveiling spares the boulders. -/
theorem unveil_spares (w : StudentWorld) (n : Nat) : Spares (w, n) (w.unveil, n) := by
  refine spares_of_eq rfl ?_
  show ((w.actors.map _)[n]?).bind Actor.rock = _
  rw [List.getElem?_map]
  unfold rockAt
  cases w.actors[n]? with
  | none => rfl
  | some a =>
      show Actor.rock (if w.nearPlayer 12 a.x a.y = true then _ else a) = _
      split <;> rfl

/-- The player's turn spares the boulders. -/
theorem playerTurn_spares (hr : w.rockAt n = some r) (tick : Tick) :
    Spares (w, n) (w.playerTurn tick, n) := by
  unfold playerTurn TunnelMan.doSomething
  split
  · exact spares_of_eq rfl rfl
  · have hgiven : Spares (w, n) ({ w with draws := tick.draws, stray := tick.stray }, n) :=
      spares_of_eq rfl rfl
    have hdug := hgiven.trans (digEarth_spares _ n w.tunnelMan.x w.tunnelMan.y)
    simp only
    generalize StudentWorld.digEarth { w with draws := tick.draws, stray := tick.stray }
      w.tunnelMan.x w.tunnelMan.y = dug at hdug
    have hdugRock : dug.rockAt n = some r := hdug.rock.trans hr
    refine hdug.trans ?_
    have hwalk : ∀ direction, Spares (dug, n) (walk dug direction, n) := by
      intro direction
      obtain ⟨t, heq, -⟩ := walk_eq dug direction
      rw [heq]
      exact spares_of_eq rfl rfl
    split
    · exact spares_of_eq rfl rfl
    · unfold squirt
      simp only
      split
      · exact spares_of_eq rfl rfl
      · exact spares_append hdugRock rfl rfl
    · exact hwalk .left
    · exact hwalk .right
    · exact hwalk .up
    · exact hwalk .down
    · unfold dropNugget
      simp only
      split
      · exact spares_append hdugRock rfl rfl
      · exact spares_of_eq rfl rfl
    · unfold useSonar
      simp only
      split
      · have hused : Spares (dug, n) (dug.setTunnelMan { dug.tunnelMan with
            nSonarKits := dug.tunnelMan.nSonarKits - 1 }, n) := spares_of_eq rfl rfl
        exact hused.trans (unveil_spares _ n)
      · exact spares_of_eq rfl rfl
    · exact spares_of_eq rfl rfl
    · exact spares_of_eq rfl rfl

/-- A tick asks the boulder once and spares it otherwise, until it is dead and removed. -/
theorem move_asks_once {tick : Tick} (hr : w.rockAt n = some r)
    (h : w.move tick = some (.continueGame, w')) : ∃ before after, Spares (w, n) (before, n) ∧
      before.askActor n = some after ∧
      ((∃ r', after.rockAt n = some r' ∧ r'.state = .dead) ∨
        ∃ i, Spares (after, n) (w', i)) := by
  unfold move at h
  split at h
  · cases h
  · split at h
    · cases h
    · obtain ⟨last, hlast, h⟩ := Option.bind_eq_some_iff.1 h
      cases h
      unfold actorsTurn at hlast
      obtain ⟨asked, hasked, hlast⟩ := Option.bind_eq_some_iff.1 hlast
      obtain ⟨removed, hremoved, hlast⟩ := Option.bind_eq_some_iff.1 hlast
      have hplayer := playerTurn_spares hr tick
      obtain ⟨a, ha, -⟩ := rockAt_eq_some_iff.1 (hplayer.rock.trans hr)
      obtain ⟨before, after, hbefore, hask, hafter⟩ :=
        askActors_asks_once (List.getElem?_eq_some_iff.1 ha).1 hasked
      refine ⟨before, after, hplayer.trans hbefore, hask, ?_⟩
      obtain ⟨r', hr'⟩ := askActor_rockAt (hbefore.rock.trans (hplayer.rock.trans hr)) hask
      by_cases hdead : r'.state = .dead
      · exact .inl ⟨r', hr', hdead⟩
      · right
        obtain ⟨i, hi⟩ := removeDead_spares (hafter.rock.trans hr') hdead hremoved
        obtain ⟨hground, added, hactors⟩ := addGoodies_eq hlast
        have hgoodies := spares_append (hi.rock.trans (hafter.rock.trans hr')) hground hactors
        exact ⟨i, hafter.trans (hi.trans hgoodies)⟩

/-! ## The start of a level -/

/-- The positions that `init` accepts are in the field. -/
theorem findPosition_bounds {high : Bool} {draws draws' : List Nat} {p : Int × Int}
    (h : w.findPosition high draws = some (p, draws')) :
    (0 ≤ p.1 ∧ p.1 < 60) ∧ 0 ≤ p.2 ∧ p.2 < 60 := by
  fun_induction StudentWorld.findPosition w high draws with
  | case1 x y draws xCoord yCoord _ ih => exact ih h
  | case2 x y draws xCoord yCoord _ =>
      cases h
      show (0 ≤ (x : Int) % 60 ∧ (x : Int) % 60 < 60) ∧
        0 ≤ (if high = true then (y : Int) % 36 + 20 else (y : Int) % 56) ∧
        (if high = true then (y : Int) % 36 + 20 else (y : Int) % 56) < 60
      split <;> omega
  | case3 => cases h

/-- A boulder of a world with one more actor was there before, or is that actor. -/
theorem rockAt_push (hr : (w.push a).rockAt n = some r) :
    w.rockAt n = some r ∧ Spares (w, n) (w.push a, n) ∨ n = w.actors.length ∧ a.rock = some r := by
  obtain ⟨b, hb, hrock⟩ := rockAt_eq_some_iff.1 hr
  have hlength := (List.getElem?_eq_some_iff.1 hb).1
  have hbound : n < w.actors.length + 1 := by
    rwa [show (w.push a).actors = w.actors ++ [a] from rfl, List.length_append] at hlength
  rcases Nat.lt_succ_iff_lt_or_eq.1 hbound with hlt | heq
  · left
    have hsame : (w.push a).rockAt n = w.rockAt n := by
      show ((w.actors ++ [a])[n]?).bind Actor.rock = _
      rw [List.getElem?_append_left hlt]
      rfl
    exact ⟨hsame.symm.trans hr, spares_of_eq rfl hsame⟩
  · right
    subst heq
    have hlast : (w.actors ++ [a])[w.actors.length]? = some b := hb
    rw [List.getElem?_concat_length, Option.some.injEq] at hlast
    subst hlast
    exact ⟨rfl, hrock⟩

/-- The actor that `init` adds next spares the boulders, and if it is one itself, its cells are
dug out. -/
theorem addActor_spares {memory : Nat → Int} {x y : Int}
    (hr : (w.addActor memory i x y).rockAt n = some r) :
    (w.rockAt n = some r ∧ Spares (w, n) (w.addActor memory i x y, n)) ∨
      (w.addActor memory i x y, n) = w.withBoulder x y (memory i) := by
  revert hr
  unfold addActor
  split
  · intro hr
    have hdig := digEarth_spares (w.push (Boulder.new x y (memory i))) n x y
    rcases rockAt_push (hdig.rock.symm.trans hr) with ⟨hold, hspares⟩ | ⟨rfl, -⟩
    · exact .inl ⟨hold, hspares.trans hdig⟩
    · exact .inr rfl
  · split
    · intro hr
      rcases rockAt_push hr with hold | ⟨-, hnone⟩
      · exact .inl hold
      · cases hnone
    · intro hr
      rcases rockAt_push hr with hold | ⟨-, hnone⟩
      · exact .inl hold
      · cases hnone

/-- The boulders among the first actors of a level were added with their cells dug out. -/
theorem addActors_rock {memory : Nat → Int} {rounds : Nat} (hempty : w.actors = [])
    (h : addActors memory rounds w = some w') (hr : w'.rockAt n = some r) :
    ∃ (before : StudentWorld) (x y clock : Int), (0 ≤ x ∧ x < 60) ∧ (0 ≤ y ∧ y < 60) ∧
      Spares (before.withBoulder x y clock) (w', n) := by
  induction rounds generalizing w' r with
  | zero =>
      cases h
      unfold rockAt at hr
      rw [hempty] at hr
      cases hr
  | succ rounds ih =>
      unfold addActors at h
      obtain ⟨mid, hmid, h⟩ := Option.bind_eq_some_iff.1 h
      obtain ⟨⟨⟨x, y⟩, draws⟩, hfind, h⟩ := Option.bind_eq_some_iff.1 h
      cases h
      rcases addActor_spares hr with ⟨hold, hspares⟩ | heq
      · obtain ⟨before, x', y', clock, hx, hy, hbefore⟩ := ih hmid hold
        have hdraws : Spares (mid, n) ({ mid with draws := draws }, n) := spares_of_eq rfl rfl
        exact ⟨before, x', y', clock, hx, hy, hbefore.trans (hdraws.trans hspares)⟩
      · obtain ⟨hx, hy⟩ := findPosition_bounds hfind
        exact ⟨_, x, y, memory rounds, hx, hy, ⟨by rw [heq], fun q hearth => by rwa [← heq]⟩⟩

/-- The boulders of a level that `init` starts are as in `boulder_falls_right`. -/
theorem started_rock (h : Started w) (hr : w.rockAt n = some r) :
    ∃ (before : StudentWorld) (x y clock : Int), (0 ≤ x ∧ x < 60) ∧ (0 ≤ y ∧ y < 60) ∧
      ∀ ok, RockRun ok (before.withBoulder x y clock) (w, n) := by
  obtain ⟨empty, memory, added, draw, draws, hempty, hadded, rfl⟩ := started_cases h
  -- the protester that is added last is no boulder
  rcases rockAt_push hr with ⟨hold, hspares⟩ | ⟨-, hnone⟩
  · have hlevel := fun hactors => addActors_rock (n := n) (r := r) hactors hadded hold
    obtain ⟨before, x, y, clock, hx, hy, hbefore⟩ := hlevel hempty
    have hdraws : Spares (added, n) ({ added with draws := draws }, n) := spares_of_eq rfl rfl
    exact ⟨before, x, y, clock, hx, hy,
      fun ok => .other .start (hbefore.trans (hdraws.trans hspares))⟩
  · cases hnone

end Coursework.OilField
