import Coursework.OilField.Barrels

/-!
# The deaths of the player

The player has two marks of death, `m_Dead` and `m_state`. A lethal shout sets both, Escape only
the first and a boulder only the second. In runs without the other two ways a player that is killed
has both marks, and the next `move` takes a life.
Vocabulary and scope: `Coursework.OilField.Game`.
-/

namespace Coursework.OilField

open StudentWorld

/-- The two marks of death agree. -/
def TunnelMan.Agrees (t : TunnelMan) : Prop :=
  t.isDead = true ↔ t.state = .dead

/-- The player got a mark of death. -/
def Killed (t t' : TunnelMan) : Prop :=
  t.isDead = false ∧ t'.isDead = true ∨ t.state ≠ .dead ∧ t'.state = .dead

/-- If the player was killed in the tick from `w` to `w'`, then its marks agree and the next call
of `move` takes one life and reports it. -/
def DiesOnce (w w' : StudentWorld) : Prop :=
  Killed w.tunnelMan w'.tunnelMan → w'.tunnelMan.Agrees ∧
    ∀ tick, w'.move tick = some (.playerDied, { w' with lives := w'.lives - 1 })

/-- In the tick Escape is not pressed, and no boulder falls close to the player, unless the player
is dead already. -/
structure Safe (w : StudentWorld) (tick : Tick) : Prop where
  escape : tick.key = some .escape → w.tunnelMan.isDead = true
  boulders : ∀ n w' a waitClock, Asked w tick n w' → w'.actors[n]? = some a →
    a.kind = .boulder waitClock → Boulder.falls w' a waitClock = true →
    within 3 (w'.tunnelMan.x + 2) (w'.tunnelMan.y + 2) (a.x + 2) (a.y + 2) = true →
    w'.tunnelMan.isDead = true

variable {start w w' : StudentWorld} {t t' : TunnelMan} {tick : Tick} {status : Status} {n : Nat}

/-- What the player suffers leaves the marks in agreement. -/
theorem Suffers.agrees (h : Suffers t t') (ht : t.Agrees) : t'.Agrees := by
  unfold TunnelMan.Agrees at ht ⊢
  rcases h with heq | hboth
  · obtain ⟨hdead, hstate⟩ := Prod.mk.inj heq
    rw [hdead, hstate]
    exact ht
  · obtain ⟨hdead, hstate⟩ := Prod.mk.inj hboth
    exact iff_of_true hdead hstate

/-- A player that suffers and gets a mark has both. -/
theorem Suffers.state_of_killed (h : Suffers t t') (hkilled : Killed t t') : t'.state = .dead := by
  rcases h with heq | hboth
  · obtain ⟨hdead, hstate⟩ := Prod.mk.inj heq
    rcases hkilled with ⟨hbefore, hafter⟩ | ⟨hbefore, hafter⟩
    · rw [hdead, hbefore] at hafter
      exact absurd hafter Bool.false_ne_true
    · exact hafter
  · exact (Prod.mk.inj hboth).2

/-- The actors that are asked in a safe tick make the player suffer at most. -/
theorem Safe.askActors_suffers (h : Safe w tick) (hplayer : w.tunnelMan.state ≠ .dead)
    (hbarrels : (w.playerTurn tick).barrelsLeft ≠ 0)
    (hasked : askActors n (w.playerTurn tick) = some w') :
    Suffers (w.playerTurn tick).tunnelMan w'.tunnelMan := by
  induction n generalizing w' with
  | zero =>
      cases hasked
      exact suffers_refl _
  | succ n ih =>
      unfold askActors at hasked
      obtain ⟨mid, hmid, hlast⟩ := Option.bind_eq_some_iff.1 hasked
      refine (ih hmid).trans (askActor_suffers hlast fun a waitClock ha hkind hfalls hnear => ?_)
      exact h.boulders n mid a waitClock ⟨hplayer, hbarrels, hmid⟩ ha hkind hfalls hnear

/-- In a safe tick the player suffers at most. -/
theorem Safe.move_suffers (h : Safe w tick) (hmove : w.move tick = some (status, w')) :
    Suffers w.tunnelMan w'.tunnelMan := by
  have hturn : Suffers w.tunnelMan (w.playerTurn tick).tunnelMan :=
    .inl ((playerTurn_effect w tick).2 h.escape)
  unfold move at hmove
  split at hmove
  · cases hmove
    exact suffers_refl _
  · next hplayer =>
    split at hmove
    · cases hmove
      exact hturn
    · next hbarrels =>
      obtain ⟨last, hlast, hmove⟩ := Option.bind_eq_some_iff.1 hmove
      cases hmove
      unfold actorsTurn at hlast
      obtain ⟨asked, hasked, hlast⟩ := Option.bind_eq_some_iff.1 hlast
      obtain ⟨removed, hremoved, hlast⟩ := Option.bind_eq_some_iff.1 hlast
      rw [removeDead_eq, Option.some.injEq] at hremoved
      subst hremoved
      rw [(addGoodies_grows hlast).2]
      have hsuffers := h.askActors_suffers hplayer hbarrels hasked
      exact hturn.trans hsuffers

/-- When a level starts, the marks agree. -/
theorem started_agrees (h : Started w) : w.tunnelMan.Agrees := by
  rw [(started_sound h).2]
  exact iff_of_false Bool.false_ne_true (fun heq => nomatch heq)

/-- In runs of safe ticks the marks agree. -/
theorem run_agrees (hstart : Started start) (hrun : Run Safe start w) : w.tunnelMan.Agrees := by
  induction hrun with
  | start => exact started_agrees hstart
  | tick _ hsafe hmove ih => exact (hsafe.move_suffers hmove).agrees ih

/-- In a run of safe ticks a player that is killed has both marks of death, and the next call of
`move` takes one life and reports it. -/
theorem player_dies_once (hstart : Started start) (hrun : Run Safe start w) (hsafe : Safe w tick)
    (hmove : w.move tick = some (status, w')) : DiesOnce w w' := by
  intro hkilled
  have hsuffers := hsafe.move_suffers hmove
  refine ⟨hsuffers.agrees (run_agrees hstart hrun), fun tick' => ?_⟩
  unfold move
  rw [if_pos (hsuffers.state_of_killed hkilled)]

/-- Actors that are asked stay at their positions. -/
theorem askActors_length (h : askActors n w = some w') : w'.actors.length = w.actors.length := by
  induction n generalizing w' with
  | zero =>
      cases h
      rfl
  | succ n ih =>
      unfold askActors at h
      obtain ⟨mid, hmid, hlast⟩ := Option.bind_eq_some_iff.1 h
      rw [← ih hmid]
      rcases (askActor_effect hlast).1 with hkeeps | ⟨a, -, -, rfl⟩
      · rw [← List.length_map Actor.profile, hkeeps.profiles, List.length_map]
      · exact List.length_set

/-- The boulder that is asked after `n` other actors falls. -/
def boulderFalls (w : StudentWorld) (n : Nat) : Bool :=
  match askActors n w with
  | none => false
  | some w =>
      match w.actors[n]? with
      | none => false
      | some a =>
          match a.kind with
          | .boulder waitClock => Boulder.falls w a waitClock
          | _ => false

/-- Escape is not pressed, and no boulder falls. -/
def quiet (w : StudentWorld) (tick : Tick) : Bool :=
  decide (tick.key ≠ some .escape) &&
    (List.range (w.playerTurn tick).actors.length).all fun n => !boulderFalls (w.playerTurn tick) n

/-- A quiet tick is safe. -/
theorem safe_of_quiet (h : quiet w tick = true) : Safe w tick := by
  simp only [quiet, Bool.and_eq_true, decide_eq_true_eq, List.all_eq_true, List.mem_range,
    Bool.not_eq_true'] at h
  refine ⟨fun hkey => absurd hkey h.1, fun n w' a waitClock hasked ha hkind hfalls _ => ?_⟩
  have hn := (List.getElem?_eq_some_iff.1 ha).1
  rw [askActors_length hasked.asked] at hn
  have hsome : boulderFalls (w.playerTurn tick) n = true := by
    unfold boulderFalls
    rw [hasked.asked]
    simp only [ha, hkind]
    exact hfalls
  rw [h.2 n hn] at hsome
  exact absurd hsome Bool.false_ne_true

/-- A player that does nothing is dead after the fifth shout, in tick 147, and dies once. -/
theorem firstLevel_dies_once : ∃ w w', Run Safe firstLevel w ∧
    w.move idleTick = some (.continueGame, w') ∧ Killed w.tunnelMan w'.tunnelMan ∧
    DiesOnce w w' := by
  have hrun : (play quiet (List.replicate 146 idleTick) firstLevel).bind (fun w =>
      (w.move idleTick).map fun result =>
        (quiet w idleTick, result.1, w.tunnelMan.isDead, result.2.tunnelMan.isDead)) =
      some (true, .continueGame, false, true) := by decide +kernel
  obtain ⟨w, hplay, hrun⟩ := Option.bind_eq_some_iff.1 hrun
  obtain ⟨⟨status, w'⟩, hmove, hrun⟩ := Option.map_eq_some_iff.1 hrun
  obtain ⟨hquiet, hrun⟩ := Prod.mk.inj hrun
  obtain ⟨hstatus, hrun⟩ := Prod.mk.inj hrun
  obtain ⟨hbefore, hafter⟩ := Prod.mk.inj hrun
  subst hstatus
  have hsafe : Run Safe firstLevel w := run_of_play (fun _ _ => safe_of_quiet) hplay .start
  exact ⟨w, w', hsafe, hmove, .inl ⟨hbefore, hafter⟩,
    player_dies_once started_firstLevel hsafe (safe_of_quiet hquiet) hmove⟩

/-- After Escape in the first tick the player has one mark of death only. -/
theorem escape_not_dies_once : ∃ w', Started firstLevel ∧
    firstLevel.move (keyTick .escape) = some (.continueGame, w') ∧ ¬ DiesOnce firstLevel w' := by
  have hmarks : (firstLevel.move (keyTick .escape)).map (fun result =>
      (result.1, result.2.tunnelMan.marks)) = some (.continueGame, true, .alive) := by decide
  obtain ⟨⟨status, w'⟩, hmove, heq⟩ := Option.map_eq_some_iff.1 hmarks
  obtain ⟨hstatus, heq⟩ := Prod.mk.inj heq
  obtain ⟨hdead, hstate⟩ := Prod.mk.inj heq
  simp only at hstatus hdead hstate
  refine ⟨w', started_firstLevel, hstatus ▸ hmove, fun h => ?_⟩
  have hagrees := (h (.inl ⟨rfl, hdead⟩)).1
  have hboth := hagrees.1 hdead
  rw [hstate] at hboth
  exact absurd hboth (by decide)

end Coursework.OilField
