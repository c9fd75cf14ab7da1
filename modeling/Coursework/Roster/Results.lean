import Coursework.Roster.Joining
import Mathlib.Data.List.Sort

/-!
# Copies, searches and new values

What a program that has reached some state sees of a copy, an assignment, a swap, a search and a
new value, in the players of its rosters. Copies are independent of their originals
(`copies_of_reachable`), a search gives the players it is for in their order
(`checkRoster_filters`), and `resigns_iff` says when a new value reaches the player it is for: the
last player of a roster is never found, and an empty roster ends the program.
Vocabulary and scope: `Coursework.Roster.World`, `Coursework.Roster.Joining`.
-/

namespace Coursework.Roster

open Heap

variable {w : World} {sheets : List Sheet} {sheet : Sheet} {choices : List Nat} {i x y : Nat}

/-- The players of a declared roster. -/
theorem World.Represents.players_get (h : w.Represents sheets) (hi : i < w.rosters.length) :
    ∃ sheet, sheets[i]? = some sheet ∧ w.players i = some sheet.players := by
  rw [← h.length_eq] at hi
  have hget := List.getElem?_eq_getElem hi
  refine ⟨sheets[i], hget, ?_⟩
  rw [h.players_eq, hget]
  rfl

/-! ## Copies -/

/-- Signing and renouncing change one roster only. -/
def World.Independent (w : World) : Prop :=
  ∀ i j, i < w.rosters.length → j ≠ i →
    (∀ player, ∃ result w', w.exec (.signPlayer i player) = some (result, w') ∧
      w'.players j = w.players j) ∧
    ∀ firstName lastName, ∃ result w',
      w.exec (.renouncePlayer i firstName lastName) = some (result, w') ∧
        w'.players j = w.players j

theorem World.Represents.independent (h : w.Represents sheets) : w.Independent := by
  intro i j hi hne
  obtain ⟨sheet, hget, -⟩ := h.players_get hi
  constructor
  · intro player
    obtain ⟨w', hw', h'⟩ := h.signPlayer hget player
    exact ⟨_, w', by rw [World.exec, hw']; rfl, (h.players_set h' hget).2 j hne⟩
  · intro firstName lastName
    obtain ⟨w', hw', h'⟩ := h.renouncePlayer hget firstName lastName
    exact ⟨_, w', by rw [World.exec, hw']; rfl, (h.players_set h' hget).2 j hne⟩

/-- What copying, assigning and swapping two rosters, which may be the same one, should do. -/
structure World.Copies (w : World) (x y : Nat) : Prop where
  copyConstruct : ∃ w', w.copyConstruct y = some w' ∧
    w'.players w.rosters.length = w.players y ∧
    (∀ k < w.rosters.length, w'.players k = w.players k) ∧ w'.Independent
  assign : ∃ w', w.assign x y = some w' ∧ w'.players x = w.players y ∧
    w'.players y = w.players y ∧ (∀ k, k ≠ x → w'.players k = w.players k) ∧ w'.Independent
  swapRoster : ∃ w', w.swapRoster x y = some w' ∧ w'.players x = w.players y ∧
    w'.players y = w.players x ∧ (∀ k, k ≠ x → k ≠ y → w'.players k = w.players k) ∧
    w'.Independent

/-- In every state that a program can reach, rosters are copied, assigned and swapped as they
should be. -/
theorem copies_of_reachable (h : Reachable choices w) (hx : x < w.rosters.length)
    (hy : y < w.rosters.length) : w.Copies x y := by
  obtain ⟨sheets, hsheets⟩ := h.represents
  obtain ⟨one, hone, honePlayers⟩ := hsheets.players_get hx
  obtain ⟨two, htwo, htwoPlayers⟩ := hsheets.players_get hy
  constructor
  case copyConstruct =>
    obtain ⟨w', hw', h'⟩ := hsheets.copyConstruct htwo
    refine ⟨w', hw', ?_, ?_, h'.independent⟩
    · rw [h'.players_eq, htwoPlayers, ← hsheets.length_eq, List.getElem?_concat_length]
      rfl
    · intro k hk
      rw [h'.players_eq, hsheets.players_eq, List.getElem?_append_left (hsheets.length_eq ▸ hk)]
  case assign =>
    obtain ⟨w', hw', h'⟩ := hsheets.assign hone htwo
    obtain ⟨hself, hothers⟩ := hsheets.players_set h' hone
    rw [← htwoPlayers] at hself
    refine ⟨w', hw', hself, ?_, hothers, h'.independent⟩
    by_cases hxy : y = x
    · rw [hxy, hself, hxy]
    · exact hothers y hxy
  case swapRoster =>
    obtain ⟨w', hw', h'⟩ := hsheets.swapRoster hone htwo
    have hlt := (List.getElem?_eq_some_iff.mp hone).1
    have hlt' := (List.getElem?_eq_some_iff.mp htwo).1
    have hx' : w'.players x = some two.players := by
      rw [h'.players_eq, List.getElem?_set_self (by rwa [List.length_set])]
      rfl
    refine ⟨w', hw', hx'.trans htwoPlayers.symm, ?_, ?_, h'.independent⟩
    · by_cases hxy : x = y
      · subst hxy
        exact hx'.trans htwoPlayers.symm
      · rw [h'.players_eq, List.getElem?_set_ne hxy, List.getElem?_set_self hlt', honePlayers]
        rfl
    · intro k hkx hky
      rw [h'.players_eq, hsheets.players_eq, List.getElem?_set_ne hkx.symm,
        List.getElem?_set_ne hky.symm]

/-- A roster with one player is copied and swapped with an empty one. -/
theorem pair_copies : ∃ w, (World.start []).run pairOps = some w ∧ w.Copies 0 2 := by
  have hrun : ((World.start []).run pairOps).map (fun w => w.rosters.length) = some 3 := by
    decide +kernel
  obtain ⟨w, hw, hlength⟩ := Option.map_eq_some_iff.mp hrun
  refine ⟨w, hw, copies_of_reachable (Reachable.start.run hw) ?_ ?_⟩ <;> omega

/-! ## Searches -/

/-- The player is searched for. -/
def Player.Fits (fsearch lsearch : StdString) (p : Player) : Prop :=
  (p.firstName = fsearch ∨ fsearch = World.wildcard) ∧
    (p.lastName = lsearch ∨ lsearch = World.wildcard)

instance (fsearch lsearch : StdString) (p : Player) : Decidable (p.Fits fsearch lsearch) :=
  inferInstanceAs (Decidable (_ ∧ _))

/-- The branches of the loop select the players that are searched for. -/
theorem fits_iff_selects (fsearch lsearch : StdString) (p : Player) :
    p.Fits fsearch lsearch ↔ fsearch = World.wildcard ∧ lsearch = World.wildcard ∨
      World.selects fsearch lsearch p = true := by
  unfold Player.Fits World.selects
  by_cases hfirst : fsearch = World.wildcard
  · by_cases hlast : lsearch = World.wildcard
    · simp [hfirst, hlast]
    · simp [hfirst, hlast, eq_comm]
  · by_cases hlast : lsearch = World.wildcard
    · simp [hfirst, hlast, eq_comm]
    · rw [if_neg hfirst, if_neg hlast, decide_eq_true_iff]
      simp only [hfirst, hlast, or_false, false_and, false_or]
      constructor
      · intro h
        exact ⟨h.2.symm, h.1.symm⟩
      · intro h
        exact ⟨h.2.symm, h.1.symm⟩

instance : Std.Irrefl Player.Before := ⟨fun _ h => h.not_before h⟩

instance : Std.Antisymm Player.Before := ⟨fun _ _ h h' => absurd h' h.not_before⟩

/-- Sheets with the same players list them in the same order. -/
theorem Sheet.players_eq_filter {found one : Sheet} {keep : Player → Prop} [DecidablePred keep]
    (h : ∀ p, p ∈ found.players ↔ p ∈ one.players ∧ keep p) :
    found.players = one.players.filter (keep ·) := by
  refine found.sorted.eq_of_mem_iff (one.sorted.filter _) fun p => ?_
  rw [h p, List.mem_filter, decide_eq_true_iff]

/-- A search puts the players who are searched for on the result, in their order, also if the result
is the roster that is searched. -/
theorem checkRoster_filters {bbOne bbResult : Nat} (h : Reachable choices w)
    (hone : bbOne < w.rosters.length) (hresult : bbResult < w.rosters.length)
    (fsearch lsearch : StdString) :
    ∃ players w', w.players bbOne = some players ∧
      w.checkRoster fsearch lsearch bbOne bbResult = some w' ∧
      w'.players bbResult = some (players.filter (·.Fits fsearch lsearch)) ∧
      ∀ k, k ≠ bbResult → w'.players k = w.players k := by
  obtain ⟨sheets, hsheets⟩ := h.represents
  obtain ⟨one, hget, hplayers⟩ := hsheets.players_get hone
  obtain ⟨old, hold, -⟩ := hsheets.players_get hresult
  have hlt := (List.getElem?_eq_some_iff.mp hold).1
  obtain ⟨w', found, hcheck, h', hmem⟩ :
      ∃ w' found, w.checkRoster fsearch lsearch bbOne bbResult = some w' ∧ _ ∧ _ :=
    hsheets.checkRoster hget hlt
  obtain ⟨hself, hothers⟩ := hsheets.players_set h' hold
  have hfound : found.players = one.players.filter (·.Fits fsearch lsearch) := by
    refine Sheet.players_eq_filter fun p => ?_
    rw [hmem p, fits_iff_selects]
  exact ⟨one.players, w', hplayers, hcheck, hfound ▸ hself, hothers⟩

/-- Searching a last name in a roster that takes the result. -/
theorem search_filters : ∃ w w', (World.start []).run
      [.construct, .signPlayer 0 ann, .signPlayer 0 cid, .signPlayer 0 bob] = some w ∧
    w.checkRoster World.wildcard ann.lastName 0 0 = some w' ∧ w'.players 0 = some [ann, bob] := by
  have hrun : ((World.start []).run [.construct, .signPlayer 0 ann, .signPlayer 0 cid,
      .signPlayer 0 bob]).map (fun w => (w.rosters.length, w.players 0)) =
      some (1, some [cid, ann, bob]) := by
    decide +kernel
  obtain ⟨w, hw, hstate⟩ := Option.map_eq_some_iff.mp hrun
  obtain ⟨hlength, hplayers⟩ := Prod.mk.inj hstate
  have hzero : 0 < w.rosters.length := by omega
  obtain ⟨players, w', hplayers', hcheck, hfound, -⟩ := checkRoster_filters
    (Reachable.start.run hw) hzero hzero World.wildcard ann.lastName
  obtain rfl := Option.some.inj (hplayers.symm.trans hplayers')
  exact ⟨w, w', hw, hcheck, hfound⟩

/-! ## New values -/

variable {firstName lastName value : StdString}

/-- Only one player has a name. -/
theorem Sheet.eq_of_named {p q : Player} (hp : p ∈ sheet.players) (hq : q ∈ sheet.players)
    (hpn : p.IsNamed firstName lastName) (hqn : q.IsNamed firstName lastName) : q = p := by
  obtain ⟨front, back, hsplit⟩ := List.append_of_mem hp
  obtain ⟨hfront, hback⟩ := Sheet.not_named hsplit hpn
  rw [hsplit, List.mem_append, List.mem_cons] at hq
  rcases hq with hq | hq | hq
  · exact absurd hqn (hfront q hq)
  · exact hq
  · exact absurd hqn (hback q hq)

/-- The entry of a name has the new value, and every other entry is as before. -/
theorem Sheet.mem_resign (h : sheet.Has firstName lastName) (p : Player) :
    p ∈ (sheet.resign firstName lastName value).players ↔
      p = ⟨firstName, lastName, value⟩ ∨ p ∈ sheet.players ∧ ¬ p.IsNamed firstName lastName := by
  show p ∈ sheet.players.map _ ↔ _
  have hentry : ∀ q : Player, q.IsNamed firstName lastName →
      { q with value } = (⟨firstName, lastName, value⟩ : Player) := by
    intro q hnamed
    rw [← hnamed.1, ← hnamed.2]
  rw [List.mem_map]
  constructor
  · intro hmem
    obtain ⟨q, hq, heq⟩ := hmem
    split at heq
    case isTrue hnamed => exact .inl (heq.symm.trans (hentry q hnamed))
    case isFalse hnamed => exact .inr (heq ▸ ⟨hq, hnamed⟩)
  · intro hmem
    rcases hmem with rfl | ⟨hp, hnamed⟩
    · obtain ⟨q, hq, hnamed⟩ := h
      exact ⟨q, hq, by rw [if_pos hnamed, hentry q hnamed]⟩
    · exact ⟨p, hp, if_neg hnamed⟩

/-- What `resignPlayer` is for: the entry of the name gets the new value, the result tells whether
there is one, and nothing else changes. -/
def World.Resigns (w : World) (i : Nat) (firstName lastName value : StdString) : Prop :=
  ∃ players result w', w.players i = some players ∧
    (w.call i fun roster s => roster.resignPlayer s firstName lastName value) =
      some (result, w') ∧
    (result = true ↔ ∃ p ∈ players, p.IsNamed firstName lastName) ∧
    w'.players i = some (players.map fun p =>
      if p.IsNamed firstName lastName then { p with value } else p) ∧
    ∀ k, k ≠ i → w'.players k = w.players k

/-- What `signOrResign` is for: the name has the value afterwards, the roster is in order, and every
other entry is as before. -/
def World.SignsOrResigns (w : World) (i : Nat) (firstName lastName value : StdString) : Prop :=
  ∃ players w' players', w.players i = some players ∧
    (w.call i fun roster s => roster.signOrResign s firstName lastName value) =
      some (true, w') ∧
    w'.players i = some players' ∧ players'.Pairwise Player.Before ∧
    (∀ p, p ∈ players' ↔
      p = ⟨firstName, lastName, value⟩ ∨ p ∈ players ∧ ¬ p.IsNamed firstName lastName) ∧
    ∀ k, k ≠ i → w'.players k = w.players k

/-- On an empty roster the call reads through a null pointer. -/
theorem World.Represents.call_empty {member : BballRoster → Store Node →
      Option (Bool × BballRoster × Store Node)} (h : w.Represents sheets)
    (hi : sheets[i]? = some sheet) (hnil : sheet.players = [])
    (hmember : ∀ {roster : BballRoster}, roster.Holds w.store [] →
      member roster w.store = none) : w.call i member = none := by
  obtain ⟨parts, hw, hparts⟩ := h
  obtain ⟨roster, nodes, hroster, -, hholds, hvalues⟩ := hw.get hparts hi
  obtain rfl : nodes = [] := List.map_eq_nil_iff.mp (hvalues.trans hnil)
  rw [World.call, hroster]
  show (member roster w.store).bind _ = none
  rw [hmember hholds]
  rfl

/-- The name is ahead of the last player or the last player's. -/
theorem has_concat {init : List Player} {last : Player} :
    (∃ p ∈ init ++ [last], p.IsNamed firstName lastName) ↔
      (∃ p ∈ init, p.IsNamed firstName lastName) ∨ last.IsNamed firstName lastName := by
  simp only [List.mem_append, List.mem_singleton, or_and_right, exists_or, exists_eq_left]

/-- A name ahead of the last player is found. -/
theorem World.Represents.resigns_found (h : w.Represents sheets) (hi : sheets[i]? = some sheet)
    (hhas : ∃ p ∈ sheet.players.dropLast, p.IsNamed firstName lastName) (value : StdString) :
    w.Resigns i firstName lastName value ∧ w.SignsOrResigns i firstName lastName value := by
  have hplayers : w.players i = some sheet.players := by
    rw [h.players_eq, hi]
    rfl
  have hhas' : sheet.Has firstName lastName := by
    obtain ⟨p, hp, hnamed⟩ := hhas
    exact ⟨p, List.dropLast_subset _ hp, hnamed⟩
  have hne : sheet.players ≠ [] := by
    obtain ⟨p, hp, -⟩ := hhas'
    exact List.ne_nil_of_mem hp
  constructor
  · obtain ⟨w', hw', h'⟩ := h.resignPlayer_found value hi hhas
    obtain ⟨hself, hothers⟩ := h.players_set h' hi
    exact ⟨_, true, w', hplayers, hw', iff_of_true rfl hhas', hself, hothers⟩
  · obtain ⟨w', hw', h'⟩ :
        ∃ w', (w.call i fun roster s => roster.signOrResign s firstName lastName value) =
          some (true, w') ∧ _ := h.signOrResign hi hne
    rw [if_pos hhas] at h'
    obtain ⟨hself, hothers⟩ := h.players_set h' hi
    exact ⟨_, w', _, hplayers, hw', hself, Sheet.sorted _, Sheet.mem_resign hhas', hothers⟩

/-- Otherwise a value is right only if the last player has another name. -/
theorem World.Represents.resigns_missed (h : w.Represents sheets) (hi : sheets[i]? = some sheet)
    {init : List Player} {last : Player} (hlast : sheet.players = init ++ [last])
    (hmissed : ¬ ∃ p ∈ init, p.IsNamed firstName lastName) (value : StdString) :
    w.Resigns i firstName lastName value ↔ ¬ last.IsNamed firstName lastName := by
  have hplayers : w.players i = some (init ++ [last]) := by
    rw [h.players_eq, hi, ← hlast]
    rfl
  have hne : sheet.players ≠ [] := by simp [hlast]
  have hcall : (w.call i fun roster s => roster.resignPlayer s firstName lastName value) =
      some (false, w) := by
    refine h.resignPlayer_missed value hi hne ?_
    rw [hlast, List.dropLast_concat]
    exact hmissed
  constructor
  · intro hresigns hnamed
    obtain ⟨players, result, w', hplayers', hcall', hresult, -⟩ := hresigns
    obtain rfl := Option.some.inj (hplayers.symm.trans hplayers')
    obtain ⟨rfl, -⟩ := Prod.mk.inj (Option.some.inj (hcall.symm.trans hcall'))
    exact Bool.false_ne_true (hresult.mpr (has_concat.mpr (.inr hnamed)))
  · intro hnamed
    have hnone : ¬ ∃ p ∈ init ++ [last], p.IsNamed firstName lastName := by
      rw [has_concat]
      exact not_or_intro hmissed hnamed
    refine ⟨_, false, w, hplayers, hcall, iff_of_false Bool.false_ne_true hnone, ?_, fun _ _ => rfl⟩
    have hsame : (init ++ [last]).map (fun p =>
        if p.IsNamed firstName lastName then { p with value } else p) = init ++ [last] := by
      rw [List.map_congr_left fun p hp => if_neg fun hpn => hnone ⟨p, hp, hpn⟩, List.map_id']
    rw [hsame, hplayers]

/-- And signing is right only if the last player does not have the name with another value. -/
theorem World.Represents.signsOrResigns_missed (h : w.Represents sheets)
    (hi : sheets[i]? = some sheet) {init : List Player} {last : Player}
    (hlast : sheet.players = init ++ [last])
    (hmissed : ¬ ∃ p ∈ init, p.IsNamed firstName lastName) (value : StdString) :
    w.SignsOrResigns i firstName lastName value ↔
      (last.IsNamed firstName lastName → last.value = value) := by
  have hplayers : w.players i = some (init ++ [last]) := by
    rw [h.players_eq, hi, ← hlast]
    rfl
  obtain ⟨w', hw', h'⟩ :
      ∃ w', (w.call i fun roster s => roster.signOrResign s firstName lastName value) =
        some (true, w') ∧ _ := h.signOrResign hi (by rw [hlast]; simp)
  rw [if_neg (by rw [hlast, List.dropLast_concat]; exact hmissed)] at h'
  obtain ⟨hself, hothers⟩ := h.players_set h' hi
  by_cases hnamed : last.IsNamed firstName lastName
  · -- the name is on the roster, so nobody is signed
    have hmem : last ∈ sheet.players := by simp [hlast]
    have hsign : sheet.sign ⟨firstName, lastName, value⟩ = (false, sheet) :=
      if_pos ⟨last, hmem, hnamed⟩
    rw [hsign] at hself
    constructor
    · intro hright _
      obtain ⟨players, w'', players', -, hcall, hself', -, hmem', -⟩ := hright
      obtain ⟨-, rfl⟩ := Prod.mk.inj (Option.some.inj (hw'.symm.trans hcall))
      obtain rfl := Option.some.inj (hself.symm.trans hself')
      have hnew := (hmem' ⟨firstName, lastName, value⟩).mpr (.inl rfl)
      have heq := Sheet.eq_of_named hmem hnew hnamed ⟨rfl, rfl⟩
      exact (congrArg Player.value heq).symm
    · intro hvalue
      have heq : last = ⟨firstName, lastName, value⟩ := by
        rw [← hvalue hnamed, ← hnamed.1, ← hnamed.2]
      refine ⟨_, w', _, hplayers, hw', hself, sheet.sorted, fun p => ?_, hothers⟩
      rw [← heq, ← hlast]
      constructor
      · intro hp
        by_cases hpn : p.IsNamed firstName lastName
        · exact .inl (Sheet.eq_of_named hmem hp hnamed hpn)
        · exact .inr ⟨hp, hpn⟩
      · intro hp
        exact hp.elim (fun hp => hp ▸ hmem) And.left
  · have habsent : ¬ sheet.Has firstName lastName := by
      unfold Sheet.Has
      rw [hlast, has_concat]
      exact not_or_intro hmissed hnamed
    have hsign : sheet.sign ⟨firstName, lastName, value⟩ =
        (true, sheet.place ⟨firstName, lastName, value⟩) := if_neg habsent
    rw [hsign] at hself
    refine iff_of_true ?_ fun h => absurd h hnamed
    refine ⟨_, w', _, hplayers, hw', hself, Sheet.sorted _, fun p => ?_, hothers⟩
    rw [(Sheet.perm_place habsent).mem_iff, List.mem_cons, ← hlast]
    refine or_congr_right ⟨fun hp => ⟨hp, fun hpn => habsent ⟨p, hp, hpn⟩⟩, And.left⟩

/-- A roster takes a new value unless it is empty or the name is that of its last player, who is
never looked at; `signOrResign` then leaves the old value. -/
theorem resigns_iff (h : Reachable choices w) (hi : i < w.rosters.length)
    (firstName lastName value : StdString) :
    ∃ players, w.players i = some players ∧
      (w.Resigns i firstName lastName value ↔
        players ≠ [] ∧ ∀ p ∈ players.getLast?, ¬ p.IsNamed firstName lastName) ∧
      (w.SignsOrResigns i firstName lastName value ↔
        players ≠ [] ∧ ∀ p ∈ players.getLast?, p.IsNamed firstName lastName → p.value = value) := by
  obtain ⟨sheets, hsheets⟩ := h.represents
  obtain ⟨sheet, hget, hplayers⟩ := hsheets.players_get hi
  refine ⟨sheet.players, hplayers, ?_⟩
  rcases List.eq_nil_or_concat' sheet.players with hnil | ⟨init, last, hlast⟩
  · -- both functions read through the null pointer at the head
    have hresign : (w.call i fun roster s => roster.resignPlayer s firstName lastName value) =
        none := hsheets.call_empty hget hnil fun hholds => resignPlayer_empty hholds
    have hsign : (w.call i fun roster s => roster.signOrResign s firstName lastName value) = none :=
      hsheets.call_empty hget hnil fun hholds => by
        rw [BballRoster.signOrResign, resignPlayer_empty hholds]
        rfl
    refine ⟨iff_of_false ?_ fun h => h.1 hnil, iff_of_false ?_ fun h => h.1 hnil⟩
    · intro hright
      obtain ⟨players, result, w', -, hcall, -⟩ := hright
      rw [hresign] at hcall
      cases hcall
    · intro hright
      obtain ⟨players, w', players', -, hcall, -⟩ := hright
      rw [hsign] at hcall
      cases hcall
  · have hne : init ++ [last] ≠ [] := by simp
    have hrear : ∀ P : Player → Prop, (∀ p ∈ (init ++ [last]).getLast?, P p) ↔ P last := by
      intro P
      simp
    rw [hlast, hrear, hrear]
    simp only [ne_eq, hne, not_false_eq_true, true_and]
    by_cases hhas : ∃ p ∈ init, p.IsNamed firstName lastName
    · -- the last player has another name
      have hnot : ¬ last.IsNamed firstName lastName := by
        obtain ⟨p, hp, hnamed⟩ := hhas
        obtain ⟨front, back, rfl⟩ := List.append_of_mem hp
        have hsplit : sheet.players = front ++ p :: (back ++ [last]) := by simp [hlast]
        exact (Sheet.not_named hsplit hnamed).2 last (by simp)
      obtain ⟨hresigns, hsigns⟩ := hsheets.resigns_found hget
        (by rw [hlast, List.dropLast_concat]; exact hhas) value
      exact ⟨iff_of_true hresigns hnot, iff_of_true hsigns fun h => absurd h hnot⟩
    · exact ⟨hsheets.resigns_missed hget hlast hhas value,
        hsheets.signsOrResigns_missed hget hlast hhas value⟩

/-- The first of two players gets a new value. -/
theorem first_resigned : ∃ w, (World.start []).run
      [.construct, .signPlayer 0 ann, .signPlayer 0 bob] = some w ∧
    w.Resigns 0 ann.firstName ann.lastName bob.value ∧
    w.SignsOrResigns 0 ann.firstName ann.lastName bob.value := by
  have hrun : ((World.start []).run [.construct, .signPlayer 0 ann, .signPlayer 0 bob]).map
      (fun w => (w.rosters.length, w.players 0)) = some (1, some [ann, bob]) := by
    decide +kernel
  obtain ⟨w, hw, hstate⟩ := Option.map_eq_some_iff.mp hrun
  obtain ⟨hlength, hplayers⟩ := Prod.mk.inj hstate
  have hzero : 0 < w.rosters.length := by omega
  obtain ⟨players, hplayers', hresigns, hsigns⟩ := resigns_iff (Reachable.start.run hw) hzero
    ann.firstName ann.lastName bob.value
  obtain rfl := Option.some.inj (hplayers.symm.trans hplayers')
  have hother : ∀ p ∈ [ann, bob].getLast?, ¬ p.IsNamed ann.firstName ann.lastName := by
    decide
  refine ⟨w, hw, hresigns.mpr ⟨List.cons_ne_nil _ _, hother⟩,
    hsigns.mpr ⟨List.cons_ne_nil _ _, fun p hp hnamed => absurd hnamed (hother p hp)⟩⟩

/-- The only player of a roster keeps the old value, and an empty roster ends the program. -/
theorem last_not_resigned : ∃ w, (World.start []).run
      [.construct, .construct, .signPlayer 0 bob] = some w ∧
    ¬ w.Resigns 0 bob.firstName bob.lastName ann.value ∧
    ¬ w.SignsOrResigns 0 bob.firstName bob.lastName ann.value ∧
    ¬ w.Resigns 1 bob.firstName bob.lastName ann.value ∧
    ¬ w.SignsOrResigns 1 bob.firstName bob.lastName ann.value := by
  have hrun : ((World.start []).run [.construct, .construct, .signPlayer 0 bob]).map (fun w =>
      (w.players 0,
        (w.call 0 fun roster s =>
          roster.resignPlayer s bob.firstName bob.lastName ann.value).map Prod.fst,
        (w.call 0 fun roster s =>
          roster.signOrResign s bob.firstName bob.lastName ann.value).map (·.2.players 0),
        (w.call 1 fun roster s =>
          roster.resignPlayer s bob.firstName bob.lastName ann.value).isSome,
        (w.call 1 fun roster s =>
          roster.signOrResign s bob.firstName bob.lastName ann.value).isSome)) =
      some (some [bob], some false, some (some [bob]), false, false) := by
    decide +kernel
  obtain ⟨w, hw, hstate⟩ := Option.map_eq_some_iff.mp hrun
  simp only [Prod.mk.injEq] at hstate
  obtain ⟨hplayers, hresign, hsign, hempty, hempty'⟩ := hstate
  refine ⟨w, hw, ?_, ?_, ?_, ?_⟩
  · intro hright
    obtain ⟨players, result, w', hplayers', hcall, hresult, -⟩ := hright
    obtain rfl := Option.some.inj (hplayers.symm.trans hplayers')
    rw [hcall] at hresign
    obtain rfl : result = false := Option.some.inj hresign
    exact Bool.false_ne_true (hresult.mpr ⟨bob, List.mem_singleton_self bob, rfl, rfl⟩)
  · intro hright
    obtain ⟨players, w', players', -, hcall, hself, -, hmem, -⟩ := hright
    rw [hcall, Option.map_some, hself] at hsign
    obtain rfl := Option.some.inj (Option.some.inj hsign)
    have hnew := (hmem ⟨bob.firstName, bob.lastName, ann.value⟩).mpr (.inl rfl)
    revert hnew
    decide
  · intro hright
    obtain ⟨players, result, w', -, hcall, -⟩ := hright
    rw [hcall] at hempty
    cases hempty
  · intro hright
    obtain ⟨players, w', players', -, hcall, -⟩ := hright
    rw [hcall] at hempty'
    cases hempty'

end Coursework.Roster
