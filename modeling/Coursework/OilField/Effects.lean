import Coursework.OilField.Game

/-!
# What a turn can change

One lemma for each function that takes part in a tick: the actors keep what the invariants of the
game depend on (`Keeps`), and the player keeps its two marks of death or gets both (`Suffers`). The
exceptions are a barrel that is picked up and a boulder that falls on the player.
Vocabulary and scope: `Coursework.OilField.Game`.
-/

namespace Coursework.OilField

/-- The actor is a barrel that was not picked up. -/
def Actor.isLiveBarrel (a : Actor) : Bool :=
  match a.kind with
  | .barrel => decide (a.state ≠ .dead)
  | _ => false

/-- What the invariants of the game need to know of an actor. -/
def Actor.profile (a : Actor) : Bool × Bool :=
  (a.isAnimate, a.isLiveBarrel)

/-- The actors' profiles and the count of barrels stay. -/
structure Keeps (w w' : StudentWorld) : Prop where
  profiles : w'.actors.map Actor.profile = w.actors.map Actor.profile
  barrelsLeft : w'.barrelsLeft = w.barrelsLeft

/-- The two marks of the player's death. -/
def TunnelMan.marks (t : TunnelMan) : Bool × State :=
  (t.isDead, t.state)

/-- The player keeps its marks of death, or it has both. -/
def Suffers (t t' : TunnelMan) : Prop :=
  t'.marks = t.marks ∨ t'.marks = (true, .dead)

/-- The boulder passes the tests of its `doSomething` and falls. -/
def Boulder.falls (w : StudentWorld) (a : Actor) (waitClock : Int) : Bool :=
  decide ((Boulder.wait w a waitClock).1 = .falling) && !decide (a.y = 0) &&
    !w.checkEarth a.x a.y && !w.blocked a.x a.y

variable {w w' w'' : StudentWorld} {a a' : Actor} {t t' t'' : TunnelMan} {n : Nat}

open StudentWorld TunnelMan

/-! ## Keeping and suffering -/

/-- Nothing happens. -/
theorem keeps_refl (w : StudentWorld) : Keeps w w :=
  ⟨rfl, rfl⟩

/-- One change after another. -/
theorem Keeps.trans (h : Keeps w w') (h' : Keeps w' w'') : Keeps w w'' :=
  ⟨h'.profiles.trans h.profiles, h'.barrelsLeft.trans h.barrelsLeft⟩

/-- The marks stay. -/
theorem suffers_refl (t : TunnelMan) : Suffers t t :=
  .inl rfl

/-- The player does not change. -/
theorem suffers_of_eq (h : t' = t) : Suffers t t' :=
  .inl (congrArg TunnelMan.marks h)

/-- One change after another. -/
theorem Suffers.trans (h : Suffers t t') (h' : Suffers t' t'') : Suffers t t'' := by
  rcases h' with heq | hboth
  · rcases h with heq' | hboth
    · exact .inl (heq.trans heq')
    · exact .inr (heq.trans hboth)
  · exact .inr hboth

/-- An actor with the same profile is stored. -/
theorem keeps_setActor (h : (w.actors.map Actor.profile)[n]? = some a.profile) :
    Keeps w (w.setActor n a) := by
  refine ⟨?_, rfl⟩
  obtain ⟨hn, hget⟩ := List.getElem?_eq_some_iff.1 h
  show (w.actors.set n a).map Actor.profile = _
  rw [List.map_set, ← hget, List.set_getElem_self]

/-- The profile of the actor at a position. -/
theorem getElem?_profile (h : w.actors[n]? = some a) :
    (w.actors.map Actor.profile)[n]? = some a.profile := by
  rw [List.getElem?_map, h]
  rfl

/-- The changed actor is stored after other changes. -/
theorem Keeps.setActor (h : Keeps w w') (ha : w.actors[n]? = some a)
    (hprofile : a'.profile = a.profile) : Keeps w (w'.setActor n a') := by
  refine h.trans (keeps_setActor ?_)
  rw [h.profiles, getElem?_profile ha, hprofile]

/-- Only barrels have a state that matters. -/
theorem profile_eq (h : a.kind ≠ .barrel) (h' : a'.kind ≠ .barrel)
    (hanimate : a'.isAnimate = a.isAnimate) : a'.profile = a.profile := by
  have hlive : ∀ b : Actor, b.kind ≠ .barrel → b.isLiveBarrel = false := by
    intro b hb
    unfold Actor.isLiveBarrel
    split
    · next heq => exact absurd heq hb
    · rfl
  unfold Actor.profile
  rw [hanimate, hlive a h, hlive a' h']

/-! ## Annoyance -/

/-- An annoyed actor keeps its profile; the world gets another maze at most. -/
theorem annoy_keeps {damage : Int} (h : a.annoy w damage = some (a', w')) :
    a'.profile = a.profile ∧ ∃ maze, w' = { w with protestorMaze := maze } := by
  unfold Actor.annoy at h
  split at h
  · next p hkind =>
    have hbarrel : a.kind ≠ .barrel := by
      rw [hkind]
      intro heq
      cases heq
    split at h
    · cases h
      exact ⟨rfl, w.protestorMaze, rfl⟩
    · split at h
      · unfold createPath at h
        simp only [Option.bind_eq_bind, Option.bind_eq_some_iff, Option.some.injEq,
          Prod.mk.injEq] at h
        obtain ⟨⟨path, next⟩, ⟨⟨maze, letters, found⟩, -, -, rfl⟩, rfl, rfl⟩ := h
        exact ⟨profile_eq hbarrel (fun heq => by cases heq) rfl, maze, rfl⟩
      · cases h
        exact ⟨profile_eq hbarrel (fun heq => by cases heq) rfl, w.protestorMaze, rfl⟩
  · cases h
    exact ⟨rfl, w.protestorMaze, rfl⟩

/-- The loops that annoy actors keep the profiles and the player. -/
theorem annoyActors_keeps {hit : Actor → Bool} {damage : Int} {contact : Bool}
    (h : annoyActors hit damage n w = some (contact, w')) :
    Keeps w w' ∧ w'.tunnelMan = w.tunnelMan := by
  induction n generalizing w' contact with
  | zero =>
      cases h
      exact ⟨keeps_refl w, rfl⟩
  | succ n ih =>
      unfold annoyActors at h
      obtain ⟨⟨contact', mid⟩, hmid, h⟩ := Option.bind_eq_some_iff.1 h
      obtain ⟨hkeeps, hplayer⟩ := ih hmid
      simp only at h
      split at h
      · cases h
        exact ⟨hkeeps, hplayer⟩
      · next a ha =>
        split at h
        · obtain ⟨⟨a', next⟩, hannoy, h⟩ := Option.bind_eq_some_iff.1 h
          cases h
          obtain ⟨hprofile, maze, rfl⟩ := annoy_keeps hannoy
          have hmaze : Keeps mid { mid with protestorMaze := maze } := ⟨rfl, rfl⟩
          exact ⟨hkeeps.trans (hmaze.setActor ha hprofile), hplayer⟩
        · cases h
          exact ⟨hkeeps, hplayer⟩

/-- A shout keeps the player's marks or sets both. -/
theorem annoyPlayer_suffers (w : StudentWorld) : Suffers w.tunnelMan w.annoyPlayer.tunnelMan := by
  unfold annoyPlayer TunnelMan.annoy
  by_cases hlethal : w.tunnelMan.hitPoints - 2 ≤ 0
  · right
    simp [hlethal, TunnelMan.marks]
  · left
    simp [hlethal, TunnelMan.marks]

/-- A falling boulder changes the player as `crushPlayer` does. -/
theorem crushedByRock_keeps {x y : Int} (h : w.crushedByRock x y = some w') :
    Keeps w w' ∧ w'.tunnelMan = (w.crushPlayer x y).tunnelMan := by
  unfold crushedByRock at h
  obtain ⟨⟨contact, mid⟩, hmid, h⟩ := Option.bind_eq_some_iff.1 h
  cases h
  obtain ⟨hkeeps, hplayer⟩ := annoyActors_keeps hmid
  have hcrush : Keeps w (w.crushPlayer x y) := by
    unfold crushPlayer
    split
    · exact ⟨rfl, rfl⟩
    · exact keeps_refl w
  exact ⟨hcrush.trans hkeeps, hplayer⟩

/-! ## The actors -/

/-- The test of a boulder's fall. -/
theorem falls_eq_true_iff {waitClock : Int} : Boulder.falls w a waitClock = true ↔
    (Boulder.wait w a waitClock).1 = .falling ∧
      ¬ (a.y = 0 ∨ w.checkEarth a.x a.y = true ∨ w.blocked a.x a.y = true) := by
  unfold Boulder.falls
  simp only [Bool.and_eq_true, decide_eq_true_iff, Bool.not_eq_true', decide_eq_false_iff_not,
    not_or, Bool.not_eq_true, and_assoc]

/-- A boulder changes the player only when it falls. -/
theorem boulder_keeps {waitClock : Int} (ha : w.actors[n]? = some a)
    (hkind : a.kind = .boulder waitClock) (h : Boulder.doSomething w n a waitClock = some w') :
    Keeps w w' ∧ (w'.tunnelMan = w.tunnelMan ∨ Boulder.falls w a waitClock = true ∧
      w'.tunnelMan = (w.crushPlayer a.x a.y).tunnelMan) := by
  have hprofile : ∀ x y state clock, Actor.profile
      ⟨x, y, a.direction, a.isVisible, a.isAnimate, state, .boulder clock⟩ = a.profile :=
    fun x y state clock => profile_eq (fun heq => by rw [hkind] at heq; cases heq)
      (fun heq => by cases heq) rfl
  unfold Boulder.doSomething at h
  simp only at h
  split at h
  · next hfalling =>
    split at h
    · cases h
      exact ⟨(keeps_refl w).setActor ha (hprofile _ _ _ _), .inl rfl⟩
    · next hfree =>
      obtain ⟨mid, hcrush, h⟩ := Option.bind_eq_some_iff.1 h
      cases h
      obtain ⟨hkeeps, hplayer⟩ := crushedByRock_keeps hcrush
      exact ⟨hkeeps.setActor ha (hprofile _ _ _ _),
        .inr ⟨falls_eq_true_iff.2 ⟨hfalling, hfree⟩, hplayer⟩⟩
  · cases h
    exact ⟨(keeps_refl w).setActor ha (hprofile _ _ _ _), .inl rfl⟩

/-- A barrel changes nothing that matters, or it is picked up. -/
theorem barrel_keeps (ha : w.actors[n]? = some a) (hkind : a.kind = .barrel) :
    (Keeps w (Barrel.doSomething w n a) ∨
      a.isLiveBarrel = true ∧ Barrel.doSomething w n a = Barrel.activate w n a) ∧
    (Barrel.doSomething w n a).tunnelMan = w.tunnelMan := by
  unfold Barrel.doSomething
  split
  · exact ⟨.inl (keeps_refl w), rfl⟩
  · next hdead =>
    split
    · exact ⟨.inl ((keeps_refl w).setActor ha rfl), rfl⟩
    · split
      · refine ⟨.inr ⟨?_, rfl⟩, rfl⟩
        unfold Actor.isLiveBarrel
        rw [hkind]
        exact decide_eq_true hdead
      · exact ⟨.inl (keeps_refl w), rfl⟩

/-- A goodie with a clock changes no mark of the player. -/
theorem goodie_keeps {clock points : Int} {kind : Int → Kind} {gain : TunnelMan → TunnelMan}
    (ha : w.actors[n]? = some a) (hkind : a.kind ≠ .barrel) (hkinds : ∀ c, kind c ≠ .barrel)
    (hgain : ∀ t, (gain t).marks = t.marks) :
    Keeps w (Goodie.doSomething w n a clock kind points gain) ∧
      Suffers w.tunnelMan (Goodie.doSomething w n a clock kind points gain).tunnelMan := by
  unfold Goodie.doSomething
  simp only
  generalize hb : (if clock = 0 then a.setState .dead else a) = b
  have hanimate : b.isAnimate = a.isAnimate := by
    rw [← hb]
    split <;> rfl
  have hbarrel : b.kind ≠ .barrel := by
    rw [← hb]
    split <;> exact hkind
  split
  · exact ⟨(keeps_refl w).setActor ha (profile_eq hkind hbarrel hanimate), suffers_refl _⟩
  · split
    · have hkeeps := (keeps_refl w).setActor ha
        (show (b.setState .dead).profile = a.profile from profile_eq hkind hbarrel hanimate)
      exact ⟨⟨hkeeps.profiles, hkeeps.barrelsLeft⟩, .inl (hgain _)⟩
    · split
      · exact ⟨(keeps_refl w).setActor ha (profile_eq hkind (hkinds _) hanimate), suffers_refl _⟩
      · exact ⟨(keeps_refl w).setActor ha (profile_eq hkind hbarrel hanimate), suffers_refl _⟩

/-- A water refill changes no mark of the player. -/
theorem waterRefill_keeps {clock : Int} (ha : w.actors[n]? = some a)
    (hkind : a.kind = .waterRefill clock) : Keeps w (WaterRefill.doSomething w n a clock) ∧
      Suffers w.tunnelMan (WaterRefill.doSomething w n a clock).tunnelMan := by
  have hbarrel : a.kind ≠ .barrel := by
    rw [hkind]
    exact fun heq => nomatch heq
  exact goodie_keeps ha hbarrel (fun _ heq => nomatch heq) (fun _ => rfl)

/-- A sonar kit changes no mark of the player. -/
theorem sonarKit_keeps {clock : Int} (ha : w.actors[n]? = some a)
    (hkind : a.kind = .sonarKit clock) : Keeps w (SonarKit.doSomething w n a clock) ∧
      Suffers w.tunnelMan (SonarKit.doSomething w n a clock).tunnelMan := by
  have hbarrel : a.kind ≠ .barrel := by
    rw [hkind]
    exact fun heq => nomatch heq
  exact goodie_keeps ha hbarrel (fun _ heq => nomatch heq) (fun _ => rfl)

/-- A nugget changes no mark of the player. -/
theorem goldenNugget_keeps {isBribeOffer : Bool} {waitClock : Int} (ha : w.actors[n]? = some a)
    (hkind : a.kind = .goldenNugget isBribeOffer waitClock) :
    Keeps w (GoldenNugget.doSomething w n a isBribeOffer waitClock) ∧
      Suffers w.tunnelMan
        (GoldenNugget.doSomething w n a isBribeOffer waitClock).tunnelMan := by
  have hbarrel : a.kind ≠ .barrel := by
    rw [hkind]
    intro heq
    cases heq
  unfold GoldenNugget.doSomething
  split
  · exact ⟨keeps_refl w, suffers_refl _⟩
  · split
    · have hkeeps := (keeps_refl w).setActor ha
        (show (a.setState .dead).profile = a.profile from profile_eq hbarrel hbarrel rfl)
      exact ⟨⟨hkeeps.profiles, hkeeps.barrelsLeft⟩, .inl rfl⟩
    · split
      · exact ⟨(keeps_refl w).setActor ha rfl, suffers_refl _⟩
      · split
        · refine ⟨(keeps_refl w).setActor ha ?_, suffers_refl _⟩
          split
          · exact profile_eq hbarrel (fun heq => by cases heq) rfl
          · exact profile_eq hbarrel (fun heq => by cases heq) rfl
        · exact ⟨keeps_refl w, suffers_refl _⟩

/-- A squirt does not change the player. -/
theorem waterSquirt_keeps {travelDistance : Int} (ha : w.actors[n]? = some a)
    (hkind : a.kind = .waterSquirt travelDistance)
    (h : WaterSquirt.doSomething w n a travelDistance = some w') :
    Keeps w w' ∧ w'.tunnelMan = w.tunnelMan := by
  have hbarrel : a.kind ≠ .barrel := by
    rw [hkind]
    intro heq
    cases heq
  unfold WaterSquirt.doSomething at h
  obtain ⟨⟨contact, mid⟩, hmid, h⟩ := Option.bind_eq_some_iff.1 h
  obtain ⟨hkeeps, hplayer⟩ := annoyActors_keeps hmid
  simp only at h
  generalize hb : (if contact = true then a.setState .dead else a) = b at h
  have hanimate : b.isAnimate = a.isAnimate := by
    rw [← hb]
    split <;> rfl
  have hbarrel' : b.kind ≠ .barrel := by
    rw [← hb]
    split <;> exact hbarrel
  split at h
  · cases h
    exact ⟨hkeeps.setActor ha (profile_eq hbarrel hbarrel' hanimate), hplayer⟩
  · cases h
    exact ⟨hkeeps.setActor ha (profile_eq hbarrel (fun heq => nomatch heq) hanimate), hplayer⟩

/-! ## Protesters -/

/-- A protester's turn leaves the actors of the world, their count of barrels and, but for shouts,
the player alone, and keeps the animate flag. -/
structure Turn (w : StudentWorld) (a : Actor) (w' : StudentWorld) (a' : Actor) : Prop where
  actors : w'.actors = w.actors
  barrelsLeft : w'.barrelsLeft = w.barrelsLeft
  player : Suffers w.tunnelMan w'.tunnelMan
  animate : a'.isAnimate = a.isAnimate

/-- The protester changed, and the world did not. -/
theorem turn_of_animate (w : StudentWorld) (h : a'.isAnimate = a.isAnimate) : Turn w a w a' :=
  ⟨rfl, rfl, suffers_refl _, h⟩

/-- One part of a turn after another. -/
theorem Turn.trans {b : Actor} (h : Turn w a w' b) (h' : Turn w' b w'' a') : Turn w a w'' a' :=
  ⟨h'.actors.trans h.actors, h'.barrelsLeft.trans h.barrelsLeft, h.player.trans h'.player,
    h'.animate.trans h.animate⟩

/-- A move keeps the animate flag. -/
theorem moveOnce_animate (a : Actor) : a.moveOnce.2.isAnimate = a.isAnimate := by
  unfold Actor.moveOnce
  split <;> rfl

/-- A turn into a free direction keeps the animate flag. -/
theorem checkForTurn_animate (w : StudentWorld) (a : Actor) :
    (a.checkForTurn w).isAnimate = a.isAnimate := by
  have hturn : ∀ direction, ((a.setDirection direction).moveOnce.2).isAnimate = a.isAnimate :=
    fun direction => moveOnce_animate (a.setDirection direction)
  unfold Actor.checkForTurn
  split
  · split
    · exact hturn _
    · split
      · exact hturn _
      · rfl
  · split
    · exact hturn _
    · split
      · exact hturn _
      · rfl

/-- A step toward the player keeps the animate flag. -/
theorem moveTowardPlayer_animate (w : StudentWorld) (a : Actor) :
    (a.moveTowardPlayer w).isAnimate = a.isAnimate := by
  unfold Actor.moveTowardPlayer
  split
  · rfl
  · split
    · rfl
    · split
      · rfl
      · split <;> rfl

/-- A step along the exit path keeps the animate flag. -/
theorem leave_animate (a : Actor) (p : RegularProtestor) :
    (a.leave p).1.isAnimate = a.isAnimate := by
  unfold Actor.leave Actor.followExitPath
  simp only
  split
  · rfl
  · split <;> rfl

/-- The numbers that pick a direction change only the direction. -/
theorem pickFrom_animate {draws draws' : List Nat} (h : a.pickFrom w draws = some (a', draws')) :
    a'.isAnimate = a.isAnimate := by
  induction draws generalizing a with
  | nil => cases h
  | cons draw draws ih =>
      unfold Actor.pickFrom at h
      simp only at h
      split at h
      · cases h
        rfl
      · have hrest := ih h
        exact hrest

/-- A new direction is a turn. -/
theorem pickNewDirection_turn (h : a.pickNewDirection w = some (a', w')) : Turn w a w' a' := by
  unfold Actor.pickNewDirection at h
  obtain ⟨⟨b, draws⟩, hpick, h⟩ := Option.bind_eq_some_iff.1 h
  cases h
  exact ⟨rfl, rfl, suffers_refl _, pickFrom_animate hpick⟩

/-- The end of a turn is a turn. -/
theorem moveOrTurn_turn (h : a.moveOrTurn w = some (a', w')) : Turn w a w' a' := by
  unfold Actor.moveOrTurn at h
  split at h
  · cases h
    exact turn_of_animate w (moveOnce_animate a)
  · exact pickNewDirection_turn h

/-- Wandering is a turn. -/
theorem wander_turn {p p' : RegularProtestor} (h : a.wander w p = some (a', p', w')) :
    Turn w a w' a' := by
  unfold Actor.wander at h
  simp only at h
  split at h
  · obtain ⟨⟨b, mid⟩, hpick, h⟩ := Option.bind_eq_some_iff.1 h
    obtain ⟨⟨draw, last⟩, hrand, h⟩ := Option.bind_eq_some_iff.1 h
    cases h
    have hmid := pickNewDirection_turn hpick
    unfold rand at hrand
    split at hrand
    · cases hrand
    · cases hrand
      exact ⟨hmid.actors, hmid.barrelsLeft, hmid.player, (moveOnce_animate b).trans hmid.animate⟩
  · obtain ⟨⟨b, mid⟩, hmove, h⟩ := Option.bind_eq_some_iff.1 h
    cases h
    exact (turn_of_animate w (checkForTurn_animate w a)).trans (moveOrTurn_turn hmove)

/-- An attempt to shout keeps everything but the player. -/
theorem attemptShout_turn (w : StudentWorld) (a : Actor) (p : RegularProtestor) :
    Turn w a (a.attemptShout w p).2 a := by
  unfold Actor.attemptShout
  split
  · exact turn_of_animate w rfl
  · split
    · exact ⟨rfl, rfl, annoyPlayer_suffers w, rfl⟩
    · exact turn_of_animate w rfl

/-- What a protester does is a turn. -/
theorem protest_turn {p p' : RegularProtestor} (h : a.protest w p = some (a', p', w')) :
    Turn w a w' a' := by
  unfold Actor.protest at h
  simp only at h
  generalize hb : (if p.tick.ticksToWaitBetweenMoves ≤ 0 then a.setState .searching else a) = b at h
  have hanimate : b.isAnimate = a.isAnimate := by
    rw [← hb]
    split <;> rfl
  refine (turn_of_animate w hanimate).trans ?_
  split at h
  · cases h
    exact turn_of_animate w rfl
  · split at h
    · cases h
      exact turn_of_animate w rfl
    · split at h
      · split at h
        · obtain ⟨⟨c, mid⟩, hmove, h⟩ := Option.bind_eq_some_iff.1 h
          cases h
          have hdead : Turn w b w (b.setState .dead) := turn_of_animate w rfl
          exact hdead.trans (moveOrTurn_turn hmove)
        · cases h
          exact turn_of_animate w (leave_animate b _)
      · split at h
        · obtain ⟨⟨c, mid⟩, hmove, h⟩ := Option.bind_eq_some_iff.1 h
          cases h
          exact (attemptShout_turn w b _).trans (moveOrTurn_turn hmove)
        · split at h
          · cases h
            exact turn_of_animate w (moveTowardPlayer_animate w b)
          · exact wander_turn h

/-- A protester keeps the profiles, and the player suffers at most. -/
theorem regularProtestor_keeps {p : RegularProtestor} (ha : w.actors[n]? = some a)
    (hkind : a.kind = .regularProtestor p) (h : RegularProtestor.doSomething w n a p = some w') :
    Keeps w w' ∧ Suffers w.tunnelMan w'.tunnelMan := by
  unfold RegularProtestor.doSomething at h
  obtain ⟨⟨b, p', mid⟩, hprotest, h⟩ := Option.bind_eq_some_iff.1 h
  cases h
  have hturn := protest_turn hprotest
  have hmid : Keeps w mid := ⟨by rw [hturn.actors], hturn.barrelsLeft⟩
  refine ⟨hmid.setActor ha (profile_eq ?_ (fun heq => nomatch heq) hturn.animate), hturn.player⟩
  rw [hkind]
  exact fun heq => nomatch heq

/-! ## The parts of a tick -/

/-- The actor that is asked keeps the profiles unless it is a barrel that is picked up, and the
player suffers at most, unless it is a boulder that falls. -/
theorem askActor_effect (h : w.askActor n = some w') :
    (Keeps w w' ∨ ∃ a, w.actors[n]? = some a ∧ a.isLiveBarrel = true ∧
      w' = Barrel.activate w n a) ∧
    (Suffers w.tunnelMan w'.tunnelMan ∨ ∃ a waitClock, w.actors[n]? = some a ∧
      a.kind = .boulder waitClock ∧ Boulder.falls w a waitClock = true ∧
      w'.tunnelMan = (w.crushPlayer a.x a.y).tunnelMan) := by
  have hnothing : Keeps w w ∧ Suffers w.tunnelMan w.tunnelMan := ⟨keeps_refl w, suffers_refl _⟩
  unfold askActor at h
  split at h
  · cases h
    exact hnothing.imp .inl .inl
  · next a ha =>
    split at h
    · cases h
      exact hnothing.imp .inl .inl
    · unfold Actor.doSomething at h
      split at h
      · next waitClock hkind =>
        obtain ⟨hkeeps, hplayer⟩ := boulder_keeps ha hkind h
        refine ⟨.inl hkeeps, hplayer.imp suffers_of_eq fun hcrush => ?_⟩
        exact ⟨a, waitClock, ha, hkind, hcrush⟩
      · next hkind =>
        cases h
        obtain ⟨hkeeps, hplayer⟩ := barrel_keeps ha hkind
        refine ⟨hkeeps.imp_right fun hpicked => ?_, .inl (suffers_of_eq hplayer)⟩
        exact ⟨a, ha, hpicked⟩
      · next hkind =>
        cases h
        exact (waterRefill_keeps ha hkind).imp .inl .inl
      · next hkind =>
        obtain ⟨hkeeps, hplayer⟩ := waterSquirt_keeps ha hkind h
        exact ⟨.inl hkeeps, .inl (suffers_of_eq hplayer)⟩
      · next hkind =>
        cases h
        exact (goldenNugget_keeps ha hkind).imp .inl .inl
      · next hkind =>
        cases h
        exact (sonarKit_keeps ha hkind).imp .inl .inl
      · next hkind => exact (regularProtestor_keeps ha hkind h).imp .inl .inl

/-- The player suffers at most, unless a boulder falls on it that was not dead before. -/
theorem askActor_suffers (h : w.askActor n = some w')
    (hsafe : ∀ a waitClock, w.actors[n]? = some a → a.kind = .boulder waitClock →
      Boulder.falls w a waitClock = true →
      within 3 (w.tunnelMan.x + 2) (w.tunnelMan.y + 2) (a.x + 2) (a.y + 2) = true →
      w.tunnelMan.isDead = true) :
    Suffers w.tunnelMan w'.tunnelMan := by
  rcases (askActor_effect h).2 with hsuffers | ⟨a, waitClock, ha, hkind, hfalls, heq⟩
  · exact hsuffers
  · rw [heq]
    unfold crushPlayer
    split
    · next hnear =>
      right
      show (w.tunnelMan.isDead, State.dead) = (true, State.dead)
      rw [hsafe a waitClock ha hkind hfalls hnear]
    · exact suffers_refl _

/-- A round of the removal loop at a dead actor. -/
theorem removal_step_dead {rest kept deleted : List Actor} (hdead : a.state = .dead) :
    Removal.step ⟨kept ++ a :: rest, kept.length, deleted⟩ =
      ⟨kept ++ rest, kept.length, deleted ++ [a]⟩ := by
  simp [Removal.step, hdead, List.eraseIdx_append_of_length_le]

/-- A round of the removal loop at an actor that is not dead. -/
theorem removal_step_live {rest kept deleted : List Actor} (hlive : a.state ≠ .dead) :
    Removal.step ⟨kept ++ a :: rest, kept.length, deleted⟩ =
      ⟨(kept ++ [a]) ++ rest, (kept ++ [a]).length, deleted⟩ := by
  simp [Removal.step, hlive]

/-- The removal loop from a position on, by induction on the actors that are left. -/
theorem removal_run_eq (rest kept deleted : List Actor) (rounds : Nat)
    (hrounds : rest.length ≤ rounds) :
    Removal.run rounds ⟨kept ++ rest, kept.length, deleted⟩ =
      some ⟨kept ++ rest.filter fun a => decide (a.state ≠ .dead),
        (kept ++ rest.filter fun a => decide (a.state ≠ .dead)).length,
        deleted ++ rest.filter fun a => decide (a.state = .dead)⟩ := by
  induction rest generalizing kept deleted rounds with
  | nil => cases rounds <;> simp [Removal.run]
  | cons a rest ih =>
      obtain ⟨rounds, rfl⟩ := Nat.exists_eq_add_one_of_ne_zero
        (Nat.ne_zero_of_lt (Nat.lt_of_lt_of_le (Nat.succ_pos rest.length) hrounds))
      have hrest : rest.length ≤ rounds := Nat.le_of_succ_le_succ hrounds
      have hgoing : ¬ (kept.length : Int) = (kept ++ a :: rest).length := by
        rw [List.length_append, List.length_cons]
        omega
      unfold Removal.run
      rw [if_neg hgoing]
      by_cases hdead : a.state = .dead
      · rw [removal_step_dead hdead, ih kept (deleted ++ [a]) rounds hrest]
        simp [hdead]
      · rw [removal_step_live hdead, ih (kept ++ [a]) deleted rounds hrest]
        simp [hdead]

/-- The removal of dead actors leaves the live ones, in order. -/
theorem removeDead_eq (w : StudentWorld) : w.removeDead =
    some { w with actors := w.actors.filter fun a => decide (a.state ≠ .dead) } := by
  unfold removeDead
  rw [show (⟨w.actors, 0, []⟩ : Removal) = ⟨[] ++ w.actors, ([] : List Actor).length, []⟩ from rfl,
    removal_run_eq w.actors [] [] w.actors.length (Nat.le_refl _)]
  rfl

/-! ## New actors -/

/-- Actors were added that are neither animate nor barrels. -/
structure Grows (w w' : StudentWorld) : Prop where
  profiles : ∃ added, w'.actors.map Actor.profile = w.actors.map Actor.profile ++
    List.replicate added (false, false)
  barrelsLeft : w'.barrelsLeft = w.barrelsLeft

/-- Nothing is added. -/
theorem grows_of_actors (h : w'.actors.map Actor.profile = w.actors.map Actor.profile)
    (hbarrels : w'.barrelsLeft = w.barrelsLeft) : Grows w w' :=
  ⟨⟨0, by rw [h, List.replicate_zero, List.append_nil]⟩, hbarrels⟩

/-- An actor is added. -/
theorem grows_push (hactors : w'.actors = w.actors) (hbarrels : w'.barrelsLeft = w.barrelsLeft)
    (ha : a.profile = (false, false)) : Grows w (w'.push a) := by
  refine ⟨⟨1, ?_⟩, hbarrels⟩
  show (w'.actors ++ [a]).map Actor.profile = _
  rw [List.map_append, hactors, List.map_singleton, ha]
  rfl

/-- Digging changes the ground only. -/
theorem digEarth_eq (w : StudentWorld) (x y : Int) :
    ∃ ground, w.digEarth x y = { w with ground := ground } := by
  unfold digEarth
  split
  · exact ⟨w.ground, rfl⟩
  · exact ⟨_, rfl⟩

/-- An arrow key moves or turns the player. -/
theorem walk_eq (w : StudentWorld) (direction : Direction) :
    ∃ t, walk w direction = w.setTunnelMan t ∧ t.marks = w.tunnelMan.marks := by
  unfold walk
  simp only
  split
  · exact ⟨_, rfl, rfl⟩
  · split
    · exact ⟨w.tunnelMan, rfl, rfl⟩
    · exact ⟨_, rfl, rfl⟩

section Keys

variable {dug : StudentWorld} (hactors : dug.actors = w.actors)
variable (hbarrels : dug.barrelsLeft = w.barrelsLeft)
include hactors hbarrels

theorem walk_grows (direction : Direction) : Grows w (walk dug direction) ∧
    (walk dug direction).tunnelMan.marks = dug.tunnelMan.marks := by
  obtain ⟨t, heq, ht⟩ := walk_eq dug direction
  rw [heq]
  exact ⟨grows_of_actors (congrArg (·.map Actor.profile) hactors) hbarrels, ht⟩

theorem squirt_grows : Grows w (squirt dug) ∧
    (squirt dug).tunnelMan.marks = dug.tunnelMan.marks := by
  unfold squirt
  simp only
  split
  · exact ⟨grows_of_actors (congrArg (·.map Actor.profile) hactors) hbarrels, rfl⟩
  · refine ⟨grows_push hactors hbarrels ?_, rfl⟩
    unfold WaterSquirt.new
    simp only
    split <;> rfl

theorem dropNugget_grows : Grows w (dropNugget dug) ∧
    (dropNugget dug).tunnelMan.marks = dug.tunnelMan.marks := by
  unfold dropNugget
  simp only
  split
  · exact ⟨grows_push hactors hbarrels rfl, rfl⟩
  · exact ⟨grows_of_actors (congrArg (·.map Actor.profile) hactors) hbarrels, rfl⟩

theorem useSonar_grows : Grows w (useSonar dug) ∧
    (useSonar dug).tunnelMan.marks = dug.tunnelMan.marks := by
  unfold useSonar
  simp only
  split
  -- unveiling changes no profile
  · refine ⟨grows_of_actors ?_ hbarrels, rfl⟩
    rw [← hactors]
    unfold unveil
    show (dug.actors.map _).map Actor.profile = _
    rw [List.map_map]
    refine List.map_congr_left fun b _ => ?_
    rw [Function.comp_apply]
    split <;> rfl
  · exact ⟨grows_of_actors (congrArg (·.map Actor.profile) hactors) hbarrels, rfl⟩

end Keys

/-- The player adds squirts and nuggets, and only Escape marks it. -/
theorem playerTurn_effect (w : StudentWorld) (tick : Tick) : Grows w (w.playerTurn tick) ∧
    ((tick.key = some .escape → w.tunnelMan.isDead = true) →
      (w.playerTurn tick).tunnelMan.marks = w.tunnelMan.marks) := by
  unfold playerTurn TunnelMan.doSomething
  split
  · exact ⟨grows_of_actors rfl rfl, fun _ => rfl⟩
  · next hdead =>
    obtain ⟨ground, hdug⟩ := digEarth_eq { w with draws := tick.draws, stray := tick.stray }
      w.tunnelMan.x w.tunnelMan.y
    simp only [hdug]
    generalize hgeneral : ({ w with
      ground := ground, draws := tick.draws, stray := tick.stray } : StudentWorld) = dug
    have hactors : dug.actors = w.actors := by rw [← hgeneral]
    have hbarrels : dug.barrelsLeft = w.barrelsLeft := by rw [← hgeneral]
    have hmarks : dug.tunnelMan.marks = w.tunnelMan.marks := by rw [← hgeneral]
    have hsame : dug.actors.map Actor.profile = w.actors.map Actor.profile := by rw [hactors]
    -- a key that does not mark the player
    have hkeep {after : StudentWorld}
        (h : Grows w after ∧ after.tunnelMan.marks = dug.tunnelMan.marks) :
        Grows w after ∧ ((tick.key = some .escape → w.tunnelMan.isDead = true) →
          after.tunnelMan.marks = w.tunnelMan.marks) :=
      ⟨h.1, fun _ => h.2.trans hmarks⟩
    split
    · next hkey =>
      refine ⟨grows_of_actors hsame hbarrels, fun h => ?_⟩
      exact absurd (h hkey) hdead
    · exact hkeep (squirt_grows hactors hbarrels)
    · exact hkeep (walk_grows hactors hbarrels .left)
    · exact hkeep (walk_grows hactors hbarrels .right)
    · exact hkeep (walk_grows hactors hbarrels .up)
    · exact hkeep (walk_grows hactors hbarrels .down)
    · exact hkeep (dropNugget_grows hactors hbarrels)
    · exact hkeep (useSonar_grows hactors hbarrels)
    · exact hkeep ⟨grows_of_actors hsame hbarrels, rfl⟩
    · exact hkeep ⟨grows_of_actors hsame hbarrels, rfl⟩

/-- A number that `rand` returns changes nothing else. -/
theorem rand_eq {draw : Nat} (h : w.rand = some (draw, w')) :
    ∃ draws, w' = { w with draws := draws } := by
  unfold rand at h
  split at h
  · cases h
  · cases h
    exact ⟨_, rfl⟩

/-- The search for a place draws numbers, and pushes a water refill at most. -/
theorem addRefill_cases (h : addRefill n w = some w') :
    ∃ draws, w' = { w with draws := draws } ∨
      ∃ a, a.profile = (false, false) ∧ w' = push { w with draws := draws } a := by
  induction n generalizing w with
  | zero =>
      cases h
      exact ⟨_, .inl rfl⟩
  | succ n ih =>
      unfold addRefill at h
      obtain ⟨⟨x, first⟩, hfirst, h⟩ := Option.bind_eq_some_iff.1 h
      obtain ⟨⟨y, second⟩, hsecond, h⟩ := Option.bind_eq_some_iff.1 h
      obtain ⟨draws, rfl⟩ := rand_eq hfirst
      obtain ⟨draws', rfl⟩ := rand_eq hsecond
      simp only at h
      split at h
      · obtain ⟨last, hlast⟩ := ih h
        exact ⟨last, hlast⟩
      · cases h
        exact ⟨draws', .inr ⟨_, rfl, rfl⟩⟩

/-- `addGoodies` draws numbers, and pushes a goodie at most. -/
theorem addGoodies_cases (h : w.addGoodies = some w') :
    ∃ draws, w' = { w with draws := draws } ∨
      ∃ a, a.profile = (false, false) ∧ w' = push { w with draws := draws } a := by
  unfold addGoodies at h
  obtain ⟨⟨probA, first⟩, hfirst, h⟩ := Option.bind_eq_some_iff.1 h
  obtain ⟨draws, rfl⟩ := rand_eq hfirst
  simp only at h
  split at h
  · unfold addGoodie at h
    obtain ⟨⟨probB, second⟩, hsecond, h⟩ := Option.bind_eq_some_iff.1 h
    obtain ⟨draws', rfl⟩ := rand_eq hsecond
    simp only at h
    split at h
    · cases h
      exact ⟨draws', .inr ⟨_, rfl, rfl⟩⟩
    · obtain ⟨last, hlast⟩ := addRefill_cases h
      exact ⟨last, hlast⟩
  · cases h
    exact ⟨draws, .inl rfl⟩

/-- `addGoodies` adds a goodie at most. -/
theorem addGoodies_grows (h : w.addGoodies = some w') :
    Grows w w' ∧ w'.tunnelMan = w.tunnelMan := by
  obtain ⟨draws, rfl | ⟨a, ha, rfl⟩⟩ := addGoodies_cases h
  · exact ⟨grows_of_actors rfl rfl, rfl⟩
  · exact ⟨grows_push rfl rfl ha, rfl⟩

/-- A level starts with the actors of `addActors` and a protester. -/
theorem started_cases (h : Started w) :
    ∃ (before : StudentWorld) (memory : Nat → Int) (added : StudentWorld) (draw : Nat)
      (draws : List Nat), before.actors = [] ∧
      addActors memory (totalActors before.level)
        { before with
          tunnelMan := .new
          ground := fullField
          barrelsLeft := barrelCount before.level } = some added ∧
      w = push { added with draws := draws }
        (RegularProtestor.new added.level draw (memory (totalActors added.level))) := by
  obtain ⟨before, memory, hempty, hinit⟩ := h
  unfold init at hinit
  split at hinit
  · cases hinit
  · obtain ⟨added, hadded, hinit⟩ := Option.bind_eq_some_iff.1 hinit
    obtain ⟨⟨draw, last⟩, hrand, hinit⟩ := Option.bind_eq_some_iff.1 hinit
    cases hinit
    obtain ⟨draws, rfl⟩ := rand_eq hrand
    exact ⟨before, memory, added, draw, draws, hempty, hadded, rfl⟩

end Coursework.OilField
