import Coursework.OilField.Effects

/-!
# The count of barrels

`m_barrelsLeft` is the number of barrels that were not picked up, from `init` on and in every
part of a tick, and `move` reports a finished level when there are none.
Vocabulary and scope: `Coursework.OilField.Game`.
-/

namespace Coursework.OilField

open StudentWorld

/-- The number of barrels that were not picked up. -/
def StudentWorld.liveBarrels (w : StudentWorld) : Nat :=
  w.actors.countP Actor.isLiveBarrel

/-- The barrels are counted, and no actor in `m_actors` has its animate flag set. -/
structure Sound (w : StudentWorld) : Prop where
  counted : w.barrelsLeft = w.liveBarrels
  inanimate : ∀ a ∈ w.actors, a.isAnimate = false

variable {w w' : StudentWorld} {a : Actor} {tick : Tick} {n : Nat}

/-! ## Every part of a tick -/

/-- The barrels are counted in the profiles. -/
theorem liveBarrels_eq (w : StudentWorld) :
    w.liveBarrels = (w.actors.map Actor.profile).countP Prod.snd := by
  rw [List.countP_map]
  rfl

/-- The invariant in terms of the profiles. -/
theorem sound_iff (w : StudentWorld) : Sound w ↔
    w.barrelsLeft = (w.actors.map Actor.profile).countP Prod.snd ∧
      ∀ profile ∈ w.actors.map Actor.profile, profile.1 = false := by
  rw [← liveBarrels_eq]
  constructor
  · intro h
    refine ⟨h.counted, fun profile hprofile => ?_⟩
    obtain ⟨a, ha, rfl⟩ := List.mem_map.1 hprofile
    exact h.inanimate a ha
  · intro h
    exact ⟨h.1, fun a ha => h.2 _ (List.mem_map_of_mem ha)⟩

/-- Changes that keep the profiles keep the invariant. -/
theorem Keeps.sound (h : Keeps w w') (hw : Sound w) : Sound w' := by
  rw [sound_iff] at hw ⊢
  rwa [h.profiles, h.barrelsLeft]

/-- Added actors keep the invariant. -/
theorem Grows.sound (h : Grows w w') (hw : Sound w) : Sound w' := by
  obtain ⟨added, hadded⟩ := h.profiles
  rw [sound_iff] at hw ⊢
  rw [hadded, h.barrelsLeft]
  constructor
  · rw [List.countP_append, List.countP_replicate, if_neg (by decide), Nat.add_zero]
    exact hw.1
  · intro profile hprofile
    rcases List.mem_append.1 hprofile with hold | hnew
    · exact hw.2 profile hold
    · rw [List.eq_of_mem_replicate hnew]

/-- A barrel that is picked up keeps the invariant. -/
theorem activate_sound (hw : Sound w) (ha : w.actors[n]? = some a)
    (hlive : a.isLiveBarrel = true) : Sound (Barrel.activate w n a) := by
  obtain ⟨hn, hget⟩ := List.getElem?_eq_some_iff.1 ha
  have hpicked : (a.setState .dead).isLiveBarrel = false := by
    unfold Actor.isLiveBarrel Actor.setState
    split
    · exact decide_eq_false (fun h => h rfl)
    · rfl
  have hlive' : w.actors[n].isLiveBarrel = true := by rwa [hget]
  have hpositive : 0 < w.liveBarrels :=
    List.countP_pos_iff.2 ⟨a, List.mem_of_getElem? ha, hlive⟩
  constructor
  · show w.barrelsLeft - 1 = ((w.actors.set n (a.setState .dead)).countP Actor.isLiveBarrel : Nat)
    rw [List.countP_set hn, if_pos hlive', hpicked, if_neg (by decide), Nat.add_zero, hw.counted]
    unfold liveBarrels at hpositive ⊢
    omega
  · intro b hb
    rcases List.mem_or_eq_of_mem_set (show b ∈ w.actors.set n (a.setState .dead) from hb) with
      hold | rfl
    · exact hw.inanimate b hold
    · exact hw.inanimate a (List.mem_of_getElem? ha)

/-- An actor that is asked keeps the invariant. -/
theorem askActor_sound (h : w.askActor n = some w') (hw : Sound w) : Sound w' := by
  rcases (askActor_effect h).1 with hkeeps | ⟨a, ha, hlive, rfl⟩
  · exact hkeeps.sound hw
  · exact activate_sound hw ha hlive

/-- The actors that are asked keep the invariant. -/
theorem askActors_sound (h : askActors n w = some w') (hw : Sound w) : Sound w' := by
  induction n generalizing w' with
  | zero =>
      cases h
      exact hw
  | succ n ih =>
      unfold askActors at h
      obtain ⟨mid, hmid, hlast⟩ := Option.bind_eq_some_iff.1 h
      exact askActor_sound hlast (ih hmid)

/-- The removal of dead actors removes no barrel that counts. -/
theorem removeDead_sound (h : w.removeDead = some w') (hw : Sound w) : Sound w' := by
  rw [removeDead_eq, Option.some.injEq] at h
  subst h
  constructor
  · show w.barrelsLeft =
      ((w.actors.filter fun a => decide (a.state ≠ .dead)).countP Actor.isLiveBarrel : Nat)
    rw [List.countP_filter, hw.counted]
    refine congrArg Nat.cast (List.countP_congr fun a _ => ?_)
    unfold Actor.isLiveBarrel
    split <;> simp
  · intro a ha
    exact hw.inanimate a (List.mem_filter.1 ha).1

/-- The player's turn keeps the invariant. -/
theorem playerTurn_sound (tick : Tick) (hw : Sound w) : Sound (w.playerTurn tick) :=
  (playerTurn_effect w tick).1.sound hw

/-- The invariant holds in every part of a tick. -/
theorem during_sound (h : During w tick w') (hw : Sound w) : Sound w' := by
  cases h with
  | player _ => exact playerTurn_sound tick hw
  | asked n h => exact askActors_sound h.asked (playerTurn_sound tick hw)
  | removed h hremoved =>
      exact removeDead_sound hremoved (askActors_sound h.asked (playerTurn_sound tick hw))

/-- A tick keeps the invariant. -/
theorem move_sound {status : Status} (h : w.move tick = some (status, w')) (hw : Sound w) :
    Sound w' := by
  unfold move at h
  split at h
  · cases h
    exact ⟨hw.counted, hw.inanimate⟩
  · split at h
    · cases h
      exact playerTurn_sound tick hw
    · obtain ⟨last, hlast, h⟩ := Option.bind_eq_some_iff.1 h
      cases h
      unfold actorsTurn at hlast
      obtain ⟨asked, hasked, hlast⟩ := Option.bind_eq_some_iff.1 hlast
      obtain ⟨removed, hremoved, hlast⟩ := Option.bind_eq_some_iff.1 hlast
      have hsound := askActors_sound hasked (playerTurn_sound tick hw)
      exact (addGoodies_grows hlast).1.sound (removeDead_sound hremoved hsound)

/-! ## The start of a level -/

/-- The actors of a level after its boulders are barrels, and the rest are nuggets. -/
theorem addActor_eq (w : StudentWorld) (memory : Nat → Int) (i : Nat) (x y : Int) :
    ∃ a ground, a.isAnimate = false ∧ (a.isLiveBarrel = true ↔ boulderCount w.level ≤ i ∧
        i < boulderCount w.level + barrelCount w.level) ∧
      w.addActor memory i x y = { w.push a with ground := ground } := by
  have hthreshold : totalActors w.level - (nuggetCount w.level + barrelCount w.level) =
      boulderCount w.level := by
    unfold totalActors
    omega
  have hthreshold' : totalActors w.level - nuggetCount w.level =
      boulderCount w.level + barrelCount w.level := by
    unfold totalActors
    omega
  unfold addActor
  rw [hthreshold, hthreshold']
  split
  · next hboulder =>
    obtain ⟨ground, hdug⟩ := digEarth_eq (w.push (Boulder.new x y (memory i))) x y
    refine ⟨Boulder.new x y (memory i), ground, rfl, ?_, hdug⟩
    exact iff_of_false Bool.false_ne_true (by omega)
  · next hboulder =>
    split
    · next hbarrel =>
      exact ⟨Barrel.new x y, w.ground, rfl, iff_of_true rfl (by omega), rfl⟩
    · next hbarrel =>
      refine ⟨GoldenNugget.new x y (memory i), w.ground, rfl, ?_, rfl⟩
      exact iff_of_false Bool.false_ne_true (by omega)

/-- The barrels among the first `n` actors of a level. -/
theorem addActors_counts {memory : Nat → Int} (hempty : w.actors = [])
    (h : addActors memory n w = some w') :
    w'.level = w.level ∧ w'.tunnelMan = w.tunnelMan ∧ w'.barrelsLeft = w.barrelsLeft ∧
      w'.liveBarrels = min (n - boulderCount w.level) (barrelCount w.level) ∧
      ∀ a ∈ w'.actors, a.isAnimate = false := by
  induction n generalizing w' with
  | zero =>
      cases h
      refine ⟨rfl, rfl, rfl, ?_, ?_⟩
      · unfold liveBarrels
        rw [hempty, Nat.zero_sub, Nat.zero_min]
        rfl
      · rw [hempty]
        exact fun a ha => (List.not_mem_nil ha).elim
  | succ n ih =>
      unfold addActors at h
      obtain ⟨mid, hmid, h⟩ := Option.bind_eq_some_iff.1 h
      obtain ⟨⟨⟨x, y⟩, draws⟩, -, h⟩ := Option.bind_eq_some_iff.1 h
      cases h
      obtain ⟨hlevel, hplayer, hbarrels, hcount, hanimate⟩ := ih hmid
      obtain ⟨a, ground, ha, hlive, heq⟩ := addActor_eq { mid with draws := draws } memory n x y
      rw [heq]
      refine ⟨hlevel, hplayer, hbarrels, ?_, fun b hb => ?_⟩
      · show (mid.actors ++ [a]).countP Actor.isLiveBarrel = _
        rw [List.countP_append, List.countP_singleton, ← liveBarrels, hcount]
        simp only [hlevel] at hlive
        simp only [hlive]
        split
        · omega
        · omega
      · rcases List.mem_append.1 (show b ∈ mid.actors ++ [a] from hb) with hold | hnew
        · exact hanimate b hold
        · rw [List.mem_singleton.1 hnew, ha]

/-- When a level starts, the invariant holds and the player is new. -/
theorem started_sound (h : Started w) : Sound w ∧ w.tunnelMan = .new := by
  obtain ⟨before, memory, added, draw, draws, hempty, hadded, rfl⟩ := started_cases h
  have hcounts := fun hactors => addActors_counts hactors hadded
  obtain ⟨-, hplayer, hbarrels, hcount, hanimate⟩ := hcounts hempty
  have hsound : Sound added := by
    refine ⟨?_, hanimate⟩
    rw [hbarrels, hcount]
    show (barrelCount before.level : Int) = _
    have htotal : totalActors before.level - boulderCount before.level =
        nuggetCount before.level + barrelCount before.level := by
      unfold totalActors
      omega
    rw [htotal, Nat.min_eq_right (Nat.le_add_left _ _)]
  refine ⟨Grows.sound ?_ hsound, hplayer⟩
  exact grows_push rfl rfl rfl

/-- The invariant holds in every world that calls of `move` lead to. -/
theorem reachable_sound (h : Reachable w) : Sound w := by
  obtain ⟨start, hstart, hrun⟩ := h
  induction hrun with
  | start => exact (started_sound hstart).1
  | tick _ _ hmove ih => exact move_sound hmove ih

/-- A level is finished when no barrel is left for a player that is not dead. -/
theorem move_finishedLevel_iff (hw : Sound w) (tick : Tick) :
    (∃ w', w.move tick = some (.finishedLevel, w')) ↔
      w.liveBarrels = 0 ∧ w.tunnelMan.state ≠ .dead := by
  have hbarrels : (w.playerTurn tick).barrelsLeft = 0 ↔ w.liveBarrels = 0 := by
    rw [(playerTurn_effect w tick).1.barrelsLeft]
    show w.barrelsLeft = 0 ↔ _
    rw [hw.counted]
    omega
  unfold move
  split
  · next hdead =>
    constructor
    · intro ⟨w', h⟩
      cases h
    · intro ⟨_, h⟩
      exact absurd hdead h
  · next hdead =>
    split
    · next hzero => exact ⟨fun _ => ⟨hbarrels.1 hzero, hdead⟩, fun _ => ⟨_, rfl⟩⟩
    · next hzero =>
      constructor
      · intro ⟨w', h⟩
        obtain ⟨last, -, h⟩ := Option.bind_eq_some_iff.1 h
        cases h
      · intro ⟨h, _⟩
        exact absurd (hbarrels.2 h) hzero

/-- No barrel is left if and only if all were picked up. -/
theorem liveBarrels_eq_zero_iff (w : StudentWorld) :
    w.liveBarrels = 0 ↔ ∀ a ∈ w.actors, a.kind = .barrel → a.state = .dead := by
  unfold liveBarrels
  rw [List.countP_eq_zero]
  refine forall_congr' fun a => imp_congr_right fun _ => ?_
  unfold Actor.isLiveBarrel
  split
  · next hkind => simp [hkind]
  · next hkind => exact iff_of_true Bool.false_ne_true fun heq => (hkind heq).elim

/-- From the start of a level on, the count is the number of barrels that are left, also within a
tick, and `move` reports a finished level if and only if there are none and the player is not
dead. -/
theorem barrels_counted (h : Reachable w) : w.barrelsLeft = w.liveBarrels ∧
    ∀ tick, (∀ w', During w tick w' → w'.barrelsLeft = w'.liveBarrels) ∧
      ((∃ w', w.move tick = some (.finishedLevel, w')) ↔
        (∀ a ∈ w.actors, a.kind = .barrel → a.state = .dead) ∧ w.tunnelMan.state ≠ .dead) := by
  have hsound := reachable_sound h
  refine ⟨hsound.counted, fun tick => ⟨fun w' hduring => (during_sound hduring hsound).counted, ?_⟩⟩
  rw [move_finishedLevel_iff hsound, liveBarrels_eq_zero_iff]

/-- The player digs its way to the first barrel and picks it up; one barrel is left. -/
theorem firstLevel_counted : ∃ w, Reachable w ∧ w.barrelsLeft = 1 ∧ w.liveBarrels = 1 ∧
    ¬ ∃ w', w.move (keyTick .left) = some (.finishedLevel, w') := by
  have hrun : (play (fun _ _ => true)
      (List.replicate 6 (keyTick .down) ++ List.replicate 8 (keyTick .left)) firstLevel).map
        (fun w => w.barrelsLeft) = some 1 := by decide +kernel
  obtain ⟨w, hplay, hone⟩ := Option.map_eq_some_iff.1 hrun
  have hreachable := reachable_of_play hplay reachable_firstLevel
  obtain ⟨hcount, hticks⟩ := barrels_counted hreachable
  have hlive : w.liveBarrels = 1 := by omega
  refine ⟨w, hreachable, hone, hlive, fun hfinished => ?_⟩
  have hall := ((hticks (keyTick .left)).2.1 hfinished).1
  rw [← liveBarrels_eq_zero_iff, hlive] at hall
  exact absurd hall (by decide)

end Coursework.OilField
