import Coursework.OilField.Effects
import Coursework.OilField.Sight

/-!
# Falling boulders

A boulder that `init` adds has its four by four cells dug out. A stable boulder looks at the four
cells under it; a falling one looks at the cell of its own corner, which is clear, so it moves onto
Earth under it. Between two calls of its `doSomething` the world may change in any way that leaves
the boulder as it is and adds no Earth.
Vocabulary and scope: `Coursework.OilField.World`, and `Boulder.doSomething` of
`Coursework.OilField.Actors`.
-/

namespace Coursework.OilField

open StudentWorld

/-- What `Boulder::doSomething` reads and sets of its boulder. -/
structure Rock where
  x : Int
  y : Int
  state : State
  waitClock : Int
  deriving DecidableEq

/-- The boulder that an actor is. -/
def Actor.rock (a : Actor) : Option Rock :=
  match a.kind with
  | .boulder waitClock => some ⟨a.x, a.y, a.state, waitClock⟩
  | _ => none

/-- The boulder falls when it is asked. -/
def Rock.Falls (r : Rock) : Prop :=
  r.state = .falling ∨ r.state = .waiting ∧ r.waitClock = 0

namespace StudentWorld

variable (w : StudentWorld) (r : Rock)

/-- The boulder at position `n` of `m_actors`. -/
def rockAt (n : Nat) : Option Rock :=
  w.actors[n]?.bind Actor.rock

/-- One of the four cells under the boulder holds Earth. -/
def EarthUnder : Prop :=
  ∃ i, 0 ≤ i ∧ i < 4 ∧ w.HasEarth (r.x + i, r.y - 1)

/-- None of the sixteen cells of the boulder holds Earth. -/
def ClearOf : Prop :=
  ∀ q, Covers (r.x, r.y) q → ¬ w.HasEarth q

/-- The boulder is in the field and in one of its four states, its clock has not run over, and its
cells are clear. -/
structure Placed : Prop where
  columns : 0 ≤ r.x ∧ r.x < 60
  rows : 0 ≤ r.y ∧ r.y < 60
  states : r.state = .stable ∨ r.state = .waiting ∧ 0 ≤ r.waitClock ∧ r.waitClock < 30 ∨
    r.state = .falling ∨ r.state = .dead
  clear : w.ClearOf r

/-- The boulder is asked and becomes `r'`. A stable one leaves its state only when there is no Earth
under it, and then waits for `30` ticks, this one included. A falling one stops at the floor, above
Earth and at another boulder, and otherwise moves down one row. -/
structure AskedRight (r' : Rock) : Prop where
  dead : r.state = .dead → r' = r
  stable : r.state = .stable →
    r' = r ∨ ¬ w.EarthUnder r ∧ r' = { r with state := .waiting, waitClock := 29 }
  leaves : r.state = .stable → ¬ w.EarthUnder r → 0 < r.y → r'.state = .waiting
  waiting : r.state = .waiting → r.waitClock ≠ 0 → r' = { r with waitClock := r.waitClock - 1 }
  stops : r.Falls → r.y = 0 ∨ w.EarthUnder r ∨ w.blocked r.x r.y = true →
    r' = { r with state := .dead }
  falls : r.Falls → ¬ (r.y = 0 ∨ w.EarthUnder r ∨ w.blocked r.x r.y = true) →
    r' = { r with state := .falling, y := r.y - 1 }

/-- Where a boulder falls and there is Earth under it, another boulder blocks it. -/
def EarthBlocked : Prop :=
  r.Falls → w.EarthUnder r → w.blocked r.x r.y = true

end StudentWorld

/-- The boulder is as it was, perhaps at another position of `m_actors`, and no Earth was added. -/
structure Spares (s s' : StudentWorld × Nat) : Prop where
  rock : s'.1.rockAt s'.2 = s.1.rockAt s.2
  ground : ∀ q, s'.1.HasEarth q → s.1.HasEarth q

/-- Runs of a world with a boulder, in which it is asked only when a condition is met. -/
inductive RockRun (ok : StudentWorld → Rock → Prop) (start : StudentWorld × Nat) :
    StudentWorld × Nat → Prop
  | start : RockRun ok start start
  | other {s s' : StudentWorld × Nat} : RockRun ok start s → Spares s s' → RockRun ok start s'
  | asked {s : StudentWorld × Nat} {w' : StudentWorld} : RockRun ok start s →
      (∀ r, s.1.rockAt s.2 = some r → ok s.1 r) → s.1.askActor s.2 = some w' →
      RockRun ok start (w', s.2)

/-- The world in which `init` has added a boulder to `w` and dug out its cells, with the boulder's
position. -/
def StudentWorld.withBoulder (w : StudentWorld) (x y memory : Int) : StudentWorld × Nat :=
  ((w.push (Boulder.new x y memory)).digEarth x y, w.actors.length)

variable {w w' : StudentWorld} {a : Actor} {r r' : Rock} {n : Nat} {q : Int × Int}

/-! ## A call of `doSomething` -/

theorem rock_eq_some_iff : a.rock = some r ↔
    a.kind = .boulder r.waitClock ∧ a.x = r.x ∧ a.y = r.y ∧ a.state = r.state := by
  unfold Actor.rock
  split
  · next waitClock hkind =>
    rw [hkind, Option.some.injEq, Kind.boulder.injEq]
    constructor
    · intro h
      subst h
      exact ⟨rfl, rfl, rfl, rfl⟩
    · intro h
      obtain ⟨rfl, hx, hy, hstate⟩ := h
      rw [hx, hy, hstate]
  · next hkind =>
    refine iff_of_false nofun fun h => ?_
    exact hkind r.waitClock h.1

theorem rockAt_eq_some_iff : w.rockAt n = some r ↔ ∃ a, w.actors[n]? = some a ∧ a.rock = some r :=
  Option.bind_eq_some_iff

/-- A cell of the field is looked at. -/
theorem checkEarth_iff {x y : Int} (hx : 0 ≤ x ∧ x < 63) (hy : 0 ≤ y ∧ y < 60) :
    w.checkEarth x y = true ↔ w.HasEarth (x, y) := by
  unfold checkEarth HasEarth
  rw [if_pos ⟨hx.1, hx.2, hy.1, hy.2⟩]
  exact ⟨fun h => ⟨hx, hy, h⟩, fun h => h.2.2⟩

/-- There is no Earth below the floor. -/
theorem earthUnder_pos (h : w.EarthUnder r) : 0 < r.y := by
  obtain ⟨i, -, -, hearth⟩ := h
  have hrow : 0 ≤ r.y - 1 := hearth.2.1.1
  omega

/-- The four tests of a stable boulder above the floor. -/
theorem supported_iff (hx : 0 ≤ r.x ∧ r.x < 60) (hy : 0 < r.y ∧ r.y < 60) :
    (w.checkEarth r.x (r.y - 1) || w.checkEarth (r.x + 1) (r.y - 1) ||
      w.checkEarth (r.x + 2) (r.y - 1) || w.checkEarth (r.x + 3) (r.y - 1)) = true ↔
      w.EarthUnder r := by
  have hrow : 0 ≤ r.y - 1 ∧ r.y - 1 < 60 := by omega
  simp only [Bool.or_eq_true]
  rw [checkEarth_iff (by omega) hrow, checkEarth_iff (by omega) hrow,
    checkEarth_iff (by omega) hrow, checkEarth_iff (by omega) hrow]
  constructor
  · intro h
    rcases h with ((h | h) | h) | h
    · exact ⟨0, by omega, by omega, by rwa [Int.add_zero]⟩
    · exact ⟨1, by omega, by omega, h⟩
    · exact ⟨2, by omega, by omega, h⟩
    · exact ⟨3, by omega, by omega, h⟩
  · intro h
    obtain ⟨i, hlow, hhigh, hearth⟩ := h
    have hcases : i = 0 ∨ i = 1 ∨ i = 2 ∨ i = 3 := by omega
    rcases hcases with rfl | rfl | rfl | rfl
    · rw [Int.add_zero] at hearth
      exact .inl (.inl (.inl hearth))
    · exact .inl (.inl (.inr hearth))
    · exact .inl (.inr hearth)
    · exact .inr hearth

/-- An annoyed actor is the boulder that it was. -/
theorem annoy_rock {a' : Actor} {damage : Int} (h : a.annoy w damage = some (a', w')) :
    a'.rock = a.rock := by
  unfold Actor.annoy at h
  split at h
  · next p hkind =>
    have hnone : ∀ b : Actor, (∃ p, b.kind = .regularProtestor p) → b.rock = none := by
      intro b hb
      obtain ⟨p, hp⟩ := hb
      unfold Actor.rock
      rw [hp]
    rw [hnone a ⟨p, hkind⟩]
    split at h
    · cases h
      exact hnone a ⟨p, hkind⟩
    · simp only at h
      split at h
      · obtain ⟨⟨path, next⟩, -, h⟩ := Option.bind_eq_some_iff.1 h
        cases h
        exact hnone _ ⟨_, rfl⟩
      · cases h
        exact hnone _ ⟨_, rfl⟩
  · cases h
    rfl

/-- An actor is stored at another position. -/
theorem rockAt_setActor_ne {i : Nat} (h : i ≠ n) : (w.setActor i a).rockAt n = w.rockAt n := by
  show ((w.actors.set i a)[n]?).bind Actor.rock = _
  rw [List.getElem?_set_ne h]
  rfl

/-- An actor is stored at its position. -/
theorem rockAt_setActor_self {b : Actor} (h : w.actors[n]? = some b) :
    (w.setActor n a).rockAt n = a.rock := by
  show ((w.actors.set n a)[n]?).bind Actor.rock = _
  rw [List.getElem?_set_self (List.getElem?_eq_some_iff.1 h).1]
  rfl

/-- The loops that annoy actors leave the ground and the boulders as they are. -/
theorem annoyActors_rock {hit : Actor → Bool} {damage : Int} {contact : Bool} {rounds : Nat}
    (h : annoyActors hit damage rounds w = some (contact, w')) :
    w'.ground = w.ground ∧ ∀ i, w'.rockAt i = w.rockAt i := by
  induction rounds generalizing w' contact with
  | zero =>
      cases h
      exact ⟨rfl, fun _ => rfl⟩
  | succ rounds ih =>
      unfold annoyActors at h
      obtain ⟨⟨contact', mid⟩, hmid, h⟩ := Option.bind_eq_some_iff.1 h
      obtain ⟨hground, hrock⟩ := ih hmid
      simp only at h
      split at h
      · cases h
        exact ⟨hground, hrock⟩
      · next a ha =>
        split at h
        · obtain ⟨⟨a', next⟩, hannoy, h⟩ := Option.bind_eq_some_iff.1 h
          cases h
          obtain ⟨-, maze, rfl⟩ := annoy_keeps hannoy
          refine ⟨hground, fun i => ?_⟩
          rw [← hrock i]
          by_cases hi : rounds = i
          · subst hi
            refine (rockAt_setActor_self (w := { mid with protestorMaze := maze }) ha).trans ?_
            rw [annoy_rock hannoy]
            show a.rock = mid.actors[rounds]?.bind Actor.rock
            rw [ha]
            rfl
          · exact rockAt_setActor_ne (w := { mid with protestorMaze := maze }) hi
        · cases h
          exact ⟨hground, hrock⟩

/-- A falling boulder leaves the ground and the boulders as they are when it hurts those in its
way. -/
theorem crushedByRock_rock {x y : Int} (h : w.crushedByRock x y = some w') :
    w'.ground = w.ground ∧ (∀ i, w'.rockAt i = w.rockAt i) ∧
      w'.actors.length = w.actors.length := by
  have hlength : w'.actors.length = w.actors.length := by
    have hprofiles := congrArg List.length (crushedByRock_keeps h).1.profiles
    rwa [List.length_map, List.length_map] at hprofiles
  unfold crushedByRock at h
  obtain ⟨⟨contact, mid⟩, hmid, h⟩ := Option.bind_eq_some_iff.1 h
  cases h
  obtain ⟨hground, hrock⟩ := annoyActors_rock hmid
  have hcrush : (w.crushPlayer x y).ground = w.ground ∧
      ∀ i, (w.crushPlayer x y).rockAt i = w.rockAt i := by
    unfold crushPlayer
    split
    · exact ⟨rfl, fun _ => rfl⟩
    · exact ⟨rfl, fun _ => rfl⟩
  exact ⟨hground.trans hcrush.1, fun i => (hrock i).trans (hcrush.2 i), hlength⟩

/-- The boulder's state and clock before it falls. -/
theorem wait_cases (hrock : a.rock = some r) (hplaced : w.Placed r) :
    (r.state = .stable → (w.EarthUnder r → Boulder.wait w a r.waitClock = (.stable, r.waitClock)) ∧
      (¬ w.EarthUnder r → 0 < r.y → Boulder.wait w a r.waitClock = (.waiting, 29)) ∧
      (Boulder.wait w a r.waitClock = (.stable, r.waitClock) ∨
        Boulder.wait w a r.waitClock = (.waiting, 29))) ∧
    (r.state = .waiting → r.waitClock ≠ 0 →
      Boulder.wait w a r.waitClock = (.waiting, r.waitClock - 1)) ∧
    (r.Falls → Boulder.wait w a r.waitClock = (.falling, r.waitClock)) := by
  obtain ⟨-, hx, hy, hstate⟩ := rock_eq_some_iff.1 hrock
  unfold Boulder.wait
  rw [hx, hy, hstate]
  simp only
  refine ⟨fun hstable => ?_, fun hwaiting hclock => ?_, fun hfalls => ?_⟩
  · rw [hstable]
    refine ⟨fun hunder => ?_, fun hnot hpos => ?_, ?_⟩
    · rw [(supported_iff hplaced.columns ⟨earthUnder_pos hunder, hplaced.rows.2⟩).2 hunder]
      rfl
    · have hfree := mt (supported_iff hplaced.columns ⟨hpos, hplaced.rows.2⟩).1 hnot
      rw [Bool.not_eq_true] at hfree
      rw [hfree]
      rfl
    · split
      · exact .inr rfl
      · exact .inl rfl
  · rw [hwaiting]
    simp only [reduceCtorEq, false_and, if_false, if_true, if_neg hclock]
  · rcases hfalls with hfalling | ⟨hwaiting, hclock⟩
    · rw [hfalling]
      simp only [reduceCtorEq, false_and, if_false]
    · rw [hwaiting, hclock]
      simp only [reduceCtorEq, false_and, if_false, if_true]

/-- What a call of `doSomething` makes of a boulder: the ground stays, and only a boulder whose
state is `falling` by then stops or moves. -/
theorem boulder_rock (ha : w.actors[n]? = some a) (hrock : a.rock = some r)
    (h : Boulder.doSomething w n a r.waitClock = some w') :
    w'.ground = w.ground ∧ w'.rockAt n = some
      (let s := Boulder.wait w a r.waitClock
      if s.1 = .falling then
        if r.y = 0 ∨ w.checkEarth r.x r.y = true ∨ w.blocked r.x r.y = true then
          ⟨r.x, r.y, .dead, s.2⟩
        else ⟨r.x, r.y - 1, .falling, s.2⟩
      else ⟨r.x, r.y, s.1, s.2⟩) := by
  obtain ⟨-, hx, hy, -⟩ := rock_eq_some_iff.1 hrock
  unfold Boulder.doSomething at h
  simp only at h
  rw [← hx, ← hy]
  simp only
  split at h
  · next hfalling =>
    rw [if_pos hfalling]
    split at h
    · next hstop =>
      cases h
      rw [if_pos hstop]
      exact ⟨rfl, rockAt_setActor_self ha⟩
    · next hfree =>
      obtain ⟨mid, hcrush, h⟩ := Option.bind_eq_some_iff.1 h
      cases h
      obtain ⟨hground, -, hlength⟩ := crushedByRock_rock hcrush
      rw [if_neg hfree]
      refine ⟨hground, ?_⟩
      have hn : n < mid.actors.length := by
        rw [hlength]
        exact (List.getElem?_eq_some_iff.1 ha).1
      rw [rockAt_setActor_self (List.getElem?_eq_getElem hn)]
      show some (Rock.mk a.x (a.y - 1) (Boulder.wait w a r.waitClock).1 _) = _
      rw [hfalling]
  · next hnot =>
    cases h
    rw [if_neg hnot]
    exact ⟨rfl, rockAt_setActor_self ha⟩

/-! ## The next call -/

/-- The call leaves the ground and asks the boulder unless it is dead. -/
theorem askActor_rock (hr : w.rockAt n = some r) (hplaced : w.Placed r)
    (hask : w.askActor n = some w') : w'.ground = w.ground ∧
      (r.state = .dead ∧ w'.rockAt n = some r ∨ r.state ≠ .dead ∧ ∃ a, a.rock = some r ∧
        w'.rockAt n = some
          (let s := Boulder.wait w a r.waitClock
          if s.1 = .falling then
            if r.y = 0 ∨ w.blocked r.x r.y = true then ⟨r.x, r.y, .dead, s.2⟩
            else ⟨r.x, r.y - 1, .falling, s.2⟩
          else ⟨r.x, r.y, s.1, s.2⟩)) := by
  obtain ⟨a, ha, hrock⟩ := rockAt_eq_some_iff.1 hr
  obtain ⟨hkind, -, -, hstate⟩ := rock_eq_some_iff.1 hrock
  unfold askActor at hask
  rw [ha] at hask
  simp only at hask
  rw [hstate] at hask
  split at hask
  · next hdead =>
    cases hask
    exact ⟨rfl, .inl ⟨hdead, hr⟩⟩
  · next hlive =>
    unfold Actor.doSomething at hask
    rw [hkind] at hask
    obtain ⟨hground, hnext⟩ := boulder_rock ha hrock hask
    refine ⟨hground, .inr ⟨hlive, a, hrock, ?_⟩⟩
    -- the cell that a falling boulder looks at is one of its own, which are clear
    have hcorner : ¬ w.checkEarth r.x r.y = true := by
      rw [checkEarth_iff (by have := hplaced.columns; omega) hplaced.rows]
      refine hplaced.clear _ ?_
      unfold Covers
      omega
    simp only [hcorner, Bool.false_eq_true, false_or] at hnext
    exact hnext

/-- No Earth comes with a call. -/
theorem clearOf_of_ground (hground : w'.ground = w.ground) (r : Rock) :
    w'.ClearOf r ↔ w.ClearOf r := by
  unfold ClearOf HasEarth
  rw [hground]

/-- A boulder that moves down one row is clear if and only if there was no Earth under it. -/
theorem clearOf_down (hclear : w.ClearOf r) :
    w.ClearOf { r with state := .falling, y := r.y - 1 } ↔ ¬ w.EarthUnder r := by
  constructor
  · intro hdown hunder
    obtain ⟨i, hlow, hhigh, hearth⟩ := hunder
    refine hdown _ ?_ hearth
    show (r.x ≤ r.x + i ∧ r.x + i < r.x + 4) ∧ r.y - 1 ≤ r.y - 1 ∧ r.y - 1 < r.y - 1 + 4
    omega
  · intro hnot q hq hearth
    have hcover : (r.x ≤ q.1 ∧ q.1 < r.x + 4) ∧ r.y - 1 ≤ q.2 ∧ q.2 < r.y - 1 + 4 := hq
    by_cases hrow : q.2 = r.y - 1
    · refine hnot ⟨q.1 - r.x, by omega, by omega, ?_⟩
      rw [← hrow, show r.x + (q.1 - r.x) = q.1 by omega]
      exact hearth
    · refine hclear q ?_ hearth
      unfold Covers
      omega

/-- The call of a boulder that does not fall yet. -/
theorem askedRight_of_not_falls (hr : w.rockAt n = some r) (hplaced : w.Placed r)
    (hask : w.askActor n = some w') (hnot : ¬ r.Falls) :
    ∃ r', w'.rockAt n = some r' ∧ w.AskedRight r r' ∧ w'.Placed r' := by
  obtain ⟨hground, hdead | ⟨hlive, a, hrock, hnext⟩⟩ := askActor_rock hr hplaced hask
  · obtain ⟨hdead, hsame⟩ := hdead
    refine ⟨r, hsame, ?_, ⟨hplaced.columns, hplaced.rows, hplaced.states, ?_⟩⟩
    · exact ⟨fun _ => rfl, fun _ => .inl rfl, fun hstable => absurd hstable (by rw [hdead]; nofun),
        fun hwaiting => absurd hwaiting (by rw [hdead]; nofun), fun h => absurd h hnot,
        fun h => absurd h hnot⟩
    · exact (clearOf_of_ground hground r).2 hplaced.clear
  · have hclear := (clearOf_of_ground hground r).2 hplaced.clear
    obtain ⟨hstable, hwaiting, -⟩ := wait_cases hrock hplaced
    rcases hplaced.states with hs | ⟨hs, hclock, hfull⟩ | hs | hs
    · obtain ⟨hunder, hfree, hcases⟩ := hstable hs
      rcases hcases with hwait | hwait
      · rw [hwait] at hnext
        refine ⟨r, ?_, ?_, ⟨hplaced.columns, hplaced.rows, hplaced.states, hclear⟩⟩
        · rw [hnext]
          show some (Rock.mk r.x r.y .stable r.waitClock) = _
          rw [← hs]
        · refine ⟨fun _ => rfl, fun _ => .inl rfl, fun _ hnone hpos => ?_, fun h => ?_,
            fun h => absurd h hnot, fun h => absurd h hnot⟩
          · have hleft := hfree hnone hpos
            rw [hwait] at hleft
            cases hleft
          · rw [hs] at h
            cases h
      · rw [hwait] at hnext
        have hnone : ¬ w.EarthUnder r := by
          intro hearth
          have hkept := hunder hearth
          rw [hwait] at hkept
          cases hkept
        have hclock : (0 : Int) ≤ 29 ∧ (29 : Int) < 30 := by decide
        refine ⟨{ r with state := .waiting, waitClock := 29 }, hnext, ?_,
          ⟨hplaced.columns, hplaced.rows, .inr (.inl ⟨rfl, hclock⟩), hclear⟩⟩
        refine ⟨fun h => ?_, fun _ => .inr ⟨hnone, rfl⟩, fun _ _ _ => rfl, fun h => ?_,
          fun h => absurd h hnot, fun h => absurd h hnot⟩
        · rw [hs] at h
          cases h
        · rw [hs] at h
          cases h
    · have hpos : r.waitClock ≠ 0 := fun hzero => hnot (.inr ⟨hs, hzero⟩)
      rw [hwaiting hs hpos] at hnext
      refine ⟨{ r with waitClock := r.waitClock - 1 }, ?_, ?_,
        ⟨hplaced.columns, hplaced.rows, .inr (.inl ⟨hs, ?_, ?_⟩), hclear⟩⟩
      · rw [hnext]
        show some (Rock.mk r.x r.y .waiting (r.waitClock - 1)) = _
        rw [← hs]
      · refine ⟨fun h => absurd h hlive, fun h => ?_, fun h => ?_, fun _ _ => rfl,
          fun h => absurd h hnot, fun h => absurd h hnot⟩
        · rw [hs] at h
          cases h
        · rw [hs] at h
          cases h
      · show 0 ≤ r.waitClock - 1
        omega
      · show r.waitClock - 1 < 30
        omega
    · exact absurd (.inl hs) hnot
    · exact absurd hs hlive

/-- The call of a boulder that falls is right if and only if the boulder is blocked where there is
Earth under it. -/
theorem askedRight_iff_of_falls (hr : w.rockAt n = some r) (hplaced : w.Placed r)
    (hask : w.askActor n = some w') (hfalls : r.Falls) :
    ∃ r', w'.rockAt n = some r' ∧ (w.AskedRight r r' ∧ w'.Placed r' ↔ w.EarthBlocked r) := by
  have hstate : r.state = .falling ∨ r.state = .waiting := hfalls.imp_right And.left
  have hnotDead : r.state ≠ .dead := by
    rcases hstate with h | h <;> rw [h] <;> nofun
  have hnotStable : r.state ≠ .stable := by
    rcases hstate with h | h <;> rw [h] <;> nofun
  have hclock : r.state = .waiting → r.waitClock = 0 := by
    intro hwaiting
    rcases hfalls with h | h
    · rw [hwaiting] at h
      cases h
    · exact h.2
  obtain ⟨hground, hdead | ⟨-, a, hrock, hnext⟩⟩ := askActor_rock hr hplaced hask
  · exact absurd hdead.1 hnotDead
  · rw [(wait_cases hrock hplaced).2.2 hfalls] at hnext
    simp only [if_true] at hnext
    -- what a right call makes of the boulder
    have hright : ∀ r', (r.y = 0 ∨ w.EarthUnder r ∨ w.blocked r.x r.y = true →
        r' = { r with state := .dead }) →
        (¬ (r.y = 0 ∨ w.EarthUnder r ∨ w.blocked r.x r.y = true) →
          r' = { r with state := .falling, y := r.y - 1 }) → w.AskedRight r r' :=
      fun r' hstops hmoves => ⟨fun h => absurd h hnotDead, fun h => absurd h hnotStable,
        fun h => absurd h hnotStable, fun h hpos => absurd (hclock h) hpos, fun _ => hstops,
        fun _ => hmoves⟩
    split at hnext
    · next hstop =>
      refine ⟨_, hnext, iff_of_true ⟨hright _ (fun _ => rfl) fun h => ?_, hplaced.columns,
        hplaced.rows, .inr (.inr (.inr rfl)), ?_⟩ fun _ hunder => ?_⟩
      · exact absurd (hstop.imp_right .inr) h
      · exact (clearOf_of_ground hground _).2 hplaced.clear
      · exact hstop.resolve_left (earthUnder_pos hunder).ne'
    · next hfree =>
      rw [not_or] at hfree
      refine ⟨_, hnext, ?_⟩
      constructor
      · intro h _ hunder
        have hdown : w.ClearOf { r with state := .falling, y := r.y - 1 } :=
          (clearOf_of_ground hground _).1 h.2.clear
        exact absurd hunder ((clearOf_down hplaced.clear).1 hdown)
      · intro hblocked
        have hnone : ¬ w.EarthUnder r := fun hunder => hfree.2 (hblocked hfalls hunder)
        refine ⟨hright _ (fun h => ?_) fun _ => rfl, hplaced.columns, ?_, .inr (.inr (.inl rfl)),
          (clearOf_of_ground hground _).2 ((clearOf_down hplaced.clear).2 hnone)⟩
        · exact absurd h (not_or.2 ⟨hfree.1, not_or.2 ⟨hnone, hfree.2⟩⟩)
        · have hrows := hplaced.rows
          show 0 ≤ r.y - 1 ∧ r.y - 1 < 60
          omega

/-- The next call is right if and only if the boulder, if it falls with Earth under it, is
blocked. -/
theorem askedRight_iff (hr : w.rockAt n = some r) (hplaced : w.Placed r)
    (hask : w.askActor n = some w') :
    ∃ r', w'.rockAt n = some r' ∧ (w.AskedRight r r' ∧ w'.Placed r' ↔ w.EarthBlocked r) := by
  by_cases hfalls : r.Falls
  · exact askedRight_iff_of_falls hr hplaced hask hfalls
  · obtain ⟨r', hr', hright⟩ := askedRight_of_not_falls hr hplaced hask hfalls
    exact ⟨r', hr', iff_of_true hright fun h => absurd h hfalls⟩

/-! ## Runs -/

/-- The boulder that `init` adds is stable, and its cells are dug out. -/
theorem withBoulder_placed (w : StudentWorld) {x y : Int} (hx : 0 ≤ x ∧ x < 60)
    (hy : 0 ≤ y ∧ y < 60) (memory : Int) :
    (w.withBoulder x y memory).1.rockAt (w.withBoulder x y memory).2 =
      some ⟨x, y, .stable, memory⟩ ∧
    (w.withBoulder x y memory).1.Placed ⟨x, y, .stable, memory⟩ := by
  have hdug : y ≠ 60 := by omega
  constructor
  · show ((StudentWorld.digEarth _ x y).actors[w.actors.length]?).bind Actor.rock = _
    rw [digEarth, if_neg hdug]
    show ((w.actors ++ [Boulder.new x y memory])[w.actors.length]?).bind Actor.rock = _
    rw [List.getElem?_concat_length]
    rfl
  · refine ⟨hx, hy, .inl rfl, fun q hq hearth => ?_⟩
    have hcover : (x ≤ q.1 ∧ q.1 < x + 4) ∧ y ≤ q.2 ∧ q.2 < y + 4 := hq
    obtain ⟨hcolumn, hrow, hground⟩ := hearth
    have hcell : (w.withBoulder x y memory).1.ground q.1 q.2 = false := by
      show (StudentWorld.digEarth _ x y).ground q.1 q.2 = false
      rw [digEarth, if_neg hdug]
      exact if_pos (by omega)
    rw [hcell] at hground
    cases hground

/-- The boulder stays in its place when the world around it changes. -/
theorem Spares.placed {s s' : StudentWorld × Nat} (h : Spares s s') (hplaced : s.1.Placed r) :
    s'.1.Placed r :=
  ⟨hplaced.columns, hplaced.rows, hplaced.states,
    fun q hq hearth => hplaced.clear q hq (h.ground q hearth)⟩

variable {x y memory : Int} {s : StudentWorld × Nat}

/-- The run keeps the boulder's cells clear, by induction on the run. -/
theorem run_placed (hx : 0 ≤ x ∧ x < 60) (hy : 0 ≤ y ∧ y < 60)
    (hrun : RockRun EarthBlocked (w.withBoulder x y memory) s) :
    ∃ r, s.1.rockAt s.2 = some r ∧ s.1.Placed r := by
  induction hrun with
  | start => exact ⟨_, withBoulder_placed w hx hy memory⟩
  | other _ hspares ih =>
      obtain ⟨r, hr, hplaced⟩ := ih
      exact ⟨r, hspares.rock.trans hr, hspares.placed hplaced⟩
  | asked _ hblocked hask ih =>
      obtain ⟨r, hr, hplaced⟩ := ih
      obtain ⟨r', hr', hright⟩ := askedRight_iff hr hplaced hask
      exact ⟨r', hr', (hright.2 (hblocked r hr)).2⟩

/-- In every run in which a boulder that falls with Earth under it is blocked, the boulder's cells
are clear, and the next call of its `doSomething` is right if and only if it is such a call too. -/
theorem boulder_falls_right (hx : 0 ≤ x ∧ x < 60) (hy : 0 ≤ y ∧ y < 60)
    (hrun : RockRun EarthBlocked (w.withBoulder x y memory) s) :
    ∃ r, s.1.rockAt s.2 = some r ∧ s.1.Placed r ∧ ∀ w', s.1.askActor s.2 = some w' →
      ∃ r', w'.rockAt s.2 = some r' ∧
        (s.1.AskedRight r r' ∧ w'.Placed r' ↔ s.1.EarthBlocked r) := by
  obtain ⟨r, hr, hplaced⟩ := run_placed hx hy hrun
  exact ⟨r, hr, hplaced, fun w' hask => askedRight_iff hr hplaced hask⟩

/-- The boulder is asked again and again. -/
def askAgain (n : Nat) : Nat → StudentWorld → Option StudentWorld
  | 0, w => some w
  | calls + 1, w => do
      let w ← w.askActor n
      askAgain n calls w

/-- Calls one after another are part of a run, if each meets the condition. -/
theorem rockRun_askAgain {ok : StudentWorld → Rock → Prop} {start : StudentWorld × Nat}
    {calls : Nat} (hrun : RockRun ok start (w, n))
    (hok : ∀ k mid r, k < calls → askAgain n k w = some mid → mid.rockAt n = some r → ok mid r)
    (h : askAgain n calls w = some w') : RockRun ok start (w', n) := by
  induction calls generalizing w with
  | zero =>
      cases h
      exact hrun
  | succ calls ih =>
      obtain ⟨mid, hmid, h⟩ := Option.bind_eq_some_iff.1 h
      have hfirst := hok 0 w
      refine ih (.asked hrun (fun r hr => hfirst r (Nat.succ_pos calls) rfl hr) hmid) ?_ h
      intro k later r hk hlater hr
      refine hok (k + 1) later r (Nat.succ_lt_succ hk) ?_ hr
      show (w.askActor n).bind (askAgain n k) = _
      rw [hmid]
      exact hlater

/-- A field without boulders, with Earth everywhere but in the central tunnel. -/
def solidField : StudentWorld where
  level := 0
  lives := 3
  score := 0
  tunnelMan := .new
  actors := []
  ground := fullField
  protestorMaze := []
  barrelsLeft := 2
  draws := []
  stray _ _ := false

/-- The boulder of the solid field when the player has dug a tunnel of four rows under it. -/
def undermined : StudentWorld :=
  (solidField.withBoulder 10 10 0).1.digEarth 10 6

/-- The player's digging leaves the boulder as it is. -/
theorem undermined_spares : Spares (solidField.withBoulder 10 10 0) (undermined, 0) := by
  refine ⟨rfl, fun q hearth => ⟨hearth.1, hearth.2.1, ?_⟩⟩
  have hground : undermined.ground q.1 q.2 = true := hearth.2.2
  show (solidField.withBoulder 10 10 0).1.ground q.1 q.2 = true
  unfold undermined at hground
  rw [digEarth, if_neg (by decide)] at hground
  simp only at hground
  split at hground
  · cases hground
  · exact hground

/-- Over the tunnel the boulder waits for `30` ticks, and the next call is right. -/
theorem undermined_falls_right : ∃ w, askAgain 0 30 undermined = some w ∧
    ∃ r, w.rockAt 0 = some r ∧ w.Placed r ∧ ∀ w', w.askActor 0 = some w' →
      ∃ r', w'.rockAt 0 = some r' ∧ (w.AskedRight r r' ∧ w'.Placed r' ↔ w.EarthBlocked r) := by
  have hwaits : ∀ k < 31, (askAgain 0 k undermined).map (fun w => w.rockAt 0) =
      some (some (if k = 0 then ⟨10, 10, .stable, 0⟩ else ⟨10, 10, .waiting, 30 - k⟩)) := by
    decide +kernel
  obtain ⟨w, hcalls, -⟩ := Option.map_eq_some_iff.1 (hwaits 30 (by decide))
  refine ⟨w, hcalls, boulder_falls_right (s := (w, 0)) (by decide) (by decide)
    (rockRun_askAgain (.other .start undermined_spares) ?_ hcalls)⟩
  -- none of these calls is one of a boulder that falls
  intro k mid r hk hmid hr hfalls
  have hrock := hwaits k (by omega)
  rw [hmid, Option.map_some, hr, Option.some.injEq, Option.some.injEq] at hrock
  subst hrock
  by_cases hfirst : k = 0
  · rw [if_pos hfirst] at hfalls
    rcases hfalls with h | h
    · cases h
    · cases h.1
  · rw [if_neg hfirst] at hfalls
    rcases hfalls with h | h
    · cases h
    · have hclock : (30 : Int) - k = 0 := h.2
      omega

/-- The boulder falls down the tunnel and one row into the Earth under it. -/
theorem undermined_not_clear :
    ∃ w, RockRun (fun _ _ => True) (solidField.withBoulder 10 10 0) (w, 0) ∧
      ∃ r, w.rockAt 0 = some r ∧ ¬ w.ClearOf r := by
  have hrun : (askAgain 0 35 undermined).map (fun w => (w.rockAt 0, w.ground 10 5)) =
      some (some ⟨10, 5, .falling, 0⟩, true) := by decide +kernel
  obtain ⟨w, hcalls, hw⟩ := Option.map_eq_some_iff.1 hrun
  rw [Prod.mk.injEq] at hw
  refine ⟨w, rockRun_askAgain (.other .start undermined_spares) (fun _ _ _ _ _ _ => trivial)
    hcalls, _, hw.1, fun hclear => hclear (10, 5) ?_ ⟨?_, ?_, hw.2⟩⟩
  · show ((10 : Int) ≤ 10 ∧ (10 : Int) < 14) ∧ (5 : Int) ≤ 5 ∧ (5 : Int) < 9
    decide
  · show (0 : Int) ≤ 10 ∧ (10 : Int) < 63
    decide
  · show (0 : Int) ≤ 5 ∧ (5 : Int) < 60
    decide

end Coursework.OilField
