import Coursework.Roster.Copying
import Coursework.Roster.World

/-!
# Rosters are sheets

Every operation of a program with several rosters does to the nodes what `Op.apply` does to sheets
(`exec_represents`), whatever addresses the allocator chooses. The invariant `World.Holds` says that
each roster is a list of its own nodes; a step on one roster keeps it
because the step touches no node of the others. `World.correct_of_run` reads the result off
for the rosters that a program can reach.
Vocabulary and scope: `Coursework.Roster.World`.
-/

namespace Coursework.Roster

open Heap

/-- Every roster is the list of its part of the nodes, and no node belongs to two rosters. -/
structure World.Holds (w : World) (parts : List (Nodes Player)) : Prop where
  length_eq : parts.length = w.rosters.length
  holds : ∀ {i : Nat} {roster : BballRoster} {nodes : Nodes Player}, w.rosters[i]? = some roster →
    parts[i]? = some nodes → roster.Holds w.store nodes
  disjoint : ∀ {i j : Nat} {nodes nodes' : Nodes Player}, i ≠ j → parts[i]? = some nodes →
    parts[j]? = some nodes' → ∀ a ∈ nodes.addresses, a ∉ nodes'.addresses

/-- The rosters have the players of these sheets. -/
def World.Represents (w : World) (sheets : List Sheet) : Prop :=
  ∃ parts, w.Holds parts ∧ parts.map Nodes.values = sheets.map Sheet.players

variable {w : World} {parts : List (Nodes Player)} {sheets : List Sheet} {sheet : Sheet}
  {s : Store Node} {roster : BballRoster} {nodes : Nodes Player} {i : Nat}

/-! ## Changing one roster -/

/-- A roster changes its own nodes and takes new ones. -/
theorem World.Holds.set (h : w.Holds parts) (hi : parts[i]? = some nodes)
    {nodes' : Nodes Player} (hholds : roster.Holds s nodes')
    (hconfined : Confined w.store s nodes.addresses nodes'.addresses) :
    World.Holds ⟨s, w.rosters.set i roster⟩ (parts.set i nodes') := by
  have hlt : i < parts.length := (List.getElem?_eq_some_iff.1 hi).1
  have hother : ∀ {j : Nat} {other : Nodes Player}, i ≠ j → parts[j]? = some other →
      ∀ a ∈ other.addresses, a ∉ nodes'.addresses := by
    intro j other hne hj
    obtain ⟨old, hold⟩ : ∃ old, w.rosters[j]? = some old := by
      have hj' := (List.getElem?_eq_some_iff.1 hj).1
      exact ⟨_, List.getElem?_eq_getElem (h.length_eq ▸ hj')⟩
    exact ((h.holds hold hj).frame hconfined (h.disjoint hne.symm hj hi)).2
  refine ⟨by simpa using h.length_eq, fun {j r other} hr hj => ?_,
    fun {j k one two} hne hj hk => ?_⟩
  · by_cases heq : i = j
    · subst heq
      rw [List.getElem?_set_self hlt] at hj
      rw [List.getElem?_set_self (h.length_eq ▸ hlt)] at hr
      cases hj
      cases hr
      exact hholds
    · rw [List.getElem?_set_ne heq] at hj hr
      exact ((h.holds hr hj).frame hconfined (h.disjoint (Ne.symm heq) hj hi)).1
  · by_cases hij : i = j
    · subst hij
      rw [List.getElem?_set_self hlt] at hj
      rw [List.getElem?_set_ne hne] at hk
      cases hj
      exact fun a ha ha' => hother hne hk a ha' ha
    · rw [List.getElem?_set_ne hij] at hj
      by_cases hik : i = k
      · subst hik
        rw [List.getElem?_set_self hlt] at hk
        cases hk
        exact hother hij hj
      · rw [List.getElem?_set_ne hik] at hk
        exact h.disjoint hne hj hk

/-- An element of a list with one more at its end. -/
theorem getElem?_concat_cases {β : Type} {l : List β} {x y : β} {j : Nat}
    (h : (l ++ [x])[j]? = some y) : l[j]? = some y ∨ j = l.length ∧ y = x := by
  rw [List.getElem?_append] at h
  split at h
  case isTrue => exact .inl h
  case isFalse hj =>
    obtain ⟨hzero, heq⟩ := List.getElem?_eq_some_iff.1 h
    rw [List.length_singleton, Nat.lt_one_iff] at hzero
    exact .inr ⟨by omega, by simpa [hzero] using heq.symm⟩

/-- One more roster, without players. -/
theorem World.Holds.construct (h : w.Holds parts) : w.construct.Holds (parts ++ [[]]) := by
  refine ⟨by simp [World.construct, h.length_eq], fun {j r other} hr hj => ?_,
    fun {j k one two} hne hj hk => ?_⟩
  · have hlength := h.length_eq
    rcases getElem?_concat_cases hj with hj' | ⟨hlast, rfl⟩
    · rcases getElem?_concat_cases hr with hr | ⟨hlast, -⟩
      · exact h.holds hr hj'
      · have hlt := (List.getElem?_eq_some_iff.1 hj').1
        omega
    · rcases getElem?_concat_cases hr with hr | ⟨-, rfl⟩
      · have hlt := (List.getElem?_eq_some_iff.1 hr).1
        omega
      · exact new_holds _
  · rcases getElem?_concat_cases hj with hj | ⟨-, rfl⟩
    · rcases getElem?_concat_cases hk with hk | ⟨-, rfl⟩
      · exact h.disjoint hne hj hk
      · simp
    · simp

/-- The roster declared last is forgotten. -/
theorem World.Holds.forget
    (h : World.Holds ⟨w.store, w.rosters ++ [roster]⟩ (parts ++ [nodes])) : w.Holds parts := by
  have hget : ∀ {j : Nat} {other : Nodes Player}, parts[j]? = some other →
      (parts ++ [nodes])[j]? = some other := by
    intro j other hj
    rw [List.getElem?_append_left (List.getElem?_eq_some_iff.1 hj).1, hj]
  refine ⟨by simpa using h.length_eq, fun {j r other} hr hj => h.holds (i := j) ?_ (hget hj),
    fun hne hj hk => h.disjoint hne (hget hj) (hget hk)⟩
  rw [List.getElem?_append_left (List.getElem?_eq_some_iff.1 hr).1, hr]

/-! ## Operations -/

/-- The nodes of the roster that has a sheet's players. -/
theorem World.Holds.get (h : w.Holds parts)
    (hparts : parts.map Nodes.values = sheets.map Sheet.players)
    (hi : sheets[i]? = some sheet) :
    ∃ roster nodes, w.rosters[i]? = some roster ∧ parts[i]? = some nodes ∧
      roster.Holds w.store nodes ∧ nodes.values = sheet.players := by
  have hvalues : (parts.map Nodes.values)[i]? = some sheet.players := by
    rw [hparts, List.getElem?_map, hi]
    rfl
  rw [List.getElem?_map, Option.map_eq_some_iff] at hvalues
  obtain ⟨nodes, hnodes, hvalues⟩ := hvalues
  have hlt := (List.getElem?_eq_some_iff.1 hnodes).1
  have hroster := List.getElem?_eq_getElem (h.length_eq ▸ hlt)
  exact ⟨_, nodes, hroster, hnodes, h.holds hroster hnodes, hvalues⟩

/-- One roster gets the players of another sheet. -/
theorem World.Holds.represents {result : BballRoster × Store Node} (h : w.Holds parts)
    (hparts : parts.map Nodes.values = sheets.map Sheet.players) (hi : parts[i]? = some nodes)
    (hbecomes : Becomes w.store nodes result sheet.players) :
    World.Represents ⟨result.2, w.rosters.set i result.1⟩ (sheets.set i sheet) := by
  obtain ⟨nodes', hholds, hvalues, hconfined⟩ := hbecomes
  exact ⟨_, h.set hi hholds hconfined, by rw [List.map_set, List.map_set, hparts, hvalues]⟩

namespace World.Represents

/-- There is a sheet for every roster. -/
theorem length_eq (h : w.Represents sheets) : sheets.length = w.rosters.length := by
  obtain ⟨parts, hw, hparts⟩ := h
  simpa [hw.length_eq] using (congrArg List.length hparts).symm

/-- A member function that gives a roster the players of `sheet'`. -/
theorem call (h : w.Represents sheets) (hi : sheets[i]? = some sheet)
    {member : BballRoster → Store Node → Option (Bool × BballRoster × Store Node)}
    {value : Bool} {sheet' : Sheet}
    (hmember : ∀ {roster : BballRoster} {nodes : Nodes Player}, roster.Holds w.store nodes →
      nodes.values = sheet.players → ∃ result, member roster w.store = some (value, result) ∧
        Becomes w.store nodes result sheet'.players) :
    ∃ w', w.call i member = some (value, w') ∧ w'.Represents (sheets.set i sheet') := by
  obtain ⟨parts, hw, hparts⟩ := h
  obtain ⟨roster, nodes, hroster, hnodes, hholds, hvalues⟩ := hw.get hparts hi
  obtain ⟨result, hresult, hbecomes⟩ := hmember hholds hvalues
  refine ⟨⟨result.2, w.rosters.set i result.1⟩, ?_, hw.represents hparts hnodes hbecomes⟩
  simp only [World.call, hroster, hresult, Option.bind_eq_bind, Option.bind_some]

/-- A member function that leaves a roster alone leaves every roster alone. -/
theorem call_eq_self (h : w.Represents sheets) (hi : sheets[i]? = some sheet)
    {member : BballRoster → Store Node → Option (Bool × BballRoster × Store Node)} {value : Bool}
    (hmember : ∀ {roster : BballRoster} {nodes : Nodes Player}, roster.Holds w.store nodes →
      nodes.values = sheet.players → member roster w.store = some (value, roster, w.store)) :
    w.call i member = some (value, w) := by
  obtain ⟨parts, hw, hparts⟩ := h
  obtain ⟨roster, nodes, hroster, -, hholds, hvalues⟩ := hw.get hparts hi
  obtain ⟨hlt, hget⟩ := List.getElem?_eq_some_iff.1 hroster
  have hset : w.rosters.set i roster = w.rosters := by
    rw [← hget, List.set_getElem_self]
  simp only [World.call, hroster, hmember hholds hvalues, Option.bind_eq_bind, Option.bind_some,
    hset]

/-- Signing a player who is on the roster changes nothing. -/
theorem signPlayer_present (h : w.Represents sheets) (hi : sheets[i]? = some sheet)
    {player : Player} (hhas : sheet.Has player.firstName player.lastName) :
    (w.call i fun roster s => roster.signPlayer s player) = some (false, w) := by
  refine h.call_eq_self hi fun hholds hvalues => ?_
  exact Roster.signPlayer_present hholds (by rw [hvalues]; exact hhas)

/-- `signPlayer` is `Sheet.sign`. -/
theorem signPlayer (h : w.Represents sheets) (hi : sheets[i]? = some sheet) (player : Player) :
    ∃ w', (w.call i fun roster s => roster.signPlayer s player) =
        some ((sheet.sign player).1, w') ∧ w'.Represents (sheets.set i (sheet.sign player).2) :=
  h.call hi fun hholds hvalues => signPlayer_sheet hholds hvalues player

/-- Renouncing a player who is not on the roster changes nothing. -/
theorem renouncePlayer_absent (h : w.Represents sheets) (hi : sheets[i]? = some sheet)
    {firstName lastName : StdString} (hhas : ¬ sheet.Has firstName lastName) :
    (w.call i fun roster s => roster.renouncePlayer s firstName lastName) = some (false, w) := by
  refine h.call_eq_self hi fun hholds hvalues => ?_
  exact Roster.renouncePlayer_absent hholds (by rw [hvalues]; exact hhas)

/-- `renouncePlayer` is `Sheet.renounce`. -/
theorem renouncePlayer (h : w.Represents sheets) (hi : sheets[i]? = some sheet)
    (firstName lastName : StdString) :
    ∃ w', (w.call i fun roster s => roster.renouncePlayer s firstName lastName) =
        some ((sheet.renounce firstName lastName).1, w') ∧
      w'.Represents (sheets.set i (sheet.renounce firstName lastName).2) := by
  refine h.call hi fun {roster nodes} hholds hvalues => ?_
  by_cases hhas : sheet.Has firstName lastName
  · obtain ⟨player, hplayer, hnamed⟩ := hhas
    obtain ⟨front, back, hsplit⟩ := List.append_of_mem hplayer
    obtain ⟨htrue, hplayers⟩ := Sheet.players_renounce hsplit hnamed
    obtain ⟨hfront, hback⟩ := Sheet.not_named hsplit hnamed
    rw [htrue, hplayers]
    exact renouncePlayer_present hholds (hvalues.trans hsplit) hnamed hfront hback
  · rw [Sheet.renounce_of_not_has hhas]
    refine ⟨(roster, w.store), ?_, nodes, hholds, hvalues, .refl _ _⟩
    exact Roster.renouncePlayer_absent hholds (by rw [hvalues]; exact hhas)

/-- The default constructor makes an empty sheet. -/
theorem construct (h : w.Represents sheets) : w.construct.Represents (sheets ++ [.empty]) := by
  obtain ⟨parts, hw, hparts⟩ := h
  refine ⟨parts ++ [[]], hw.construct, ?_⟩
  rw [List.map_append, List.map_append, hparts]
  rfl

/-- The copy constructor copies a sheet. -/
theorem copyConstruct (h : w.Represents sheets) (hi : sheets[i]? = some sheet) :
    ∃ w', w.copyConstruct i = some w' ∧ w'.Represents (sheets ++ [sheet]) := by
  have hlength := h.length_eq
  obtain ⟨parts, hw, hparts⟩ := h
  obtain ⟨source, nodes, hsource, -, hholds, hvalues⟩ := hw.get hparts hi
  obtain ⟨result, hresult, hbecomes⟩ := copy_eq hholds
  rw [hvalues] at hbecomes
  refine ⟨⟨result.2, w.rosters ++ [result.1]⟩, ?_, ?_⟩
  · simp only [World.copyConstruct, hsource, hresult, Option.bind_eq_bind, Option.bind_some]
  · -- the copy is the empty roster declared last, changed
    have hnew : (parts ++ [[]])[w.rosters.length]? = some [] := by
      rw [← hw.length_eq, List.getElem?_concat_length]
    have hempty : (parts ++ [[]]).map Nodes.values =
        (sheets ++ [Sheet.empty]).map Sheet.players := by
      rw [List.map_append, List.map_append, hparts]
      rfl
    have hset := hw.construct.represents hempty hnew hbecomes
    simpa [World.construct, ← hlength] using hset

/-- The assignment copies a sheet over another one. -/
theorem assign {dest src : Nat} {old : Sheet} (h : w.Represents sheets)
    (hdest : sheets[dest]? = some old) (hsrc : sheets[src]? = some sheet) :
    ∃ w', w.assign dest src = some w' ∧ w'.Represents (sheets.set dest sheet) := by
  obtain ⟨parts, hw, hparts⟩ := h
  obtain ⟨roster, nodes, hroster, hnodes, hholds, -⟩ := hw.get hparts hdest
  obtain ⟨source, srcNodes, hsource, hsrcNodes, hsrcHolds, hvalues⟩ := hw.get hparts hsrc
  have hassign : ∃ result, roster.assign w.store source = some result ∧
      Becomes w.store nodes result sheet.players := by
    rw [← hvalues]
    by_cases heq : dest = src
    · subst heq
      obtain rfl : roster = source := Option.some.inj (hroster.symm.trans hsource)
      obtain rfl : nodes = srcNodes := Option.some.inj (hnodes.symm.trans hsrcNodes)
      exact ⟨(roster, w.store), by rw [BballRoster.assign, if_pos rfl], nodes, hholds, rfl,
        .refl _ _⟩
    · exact assign_eq hholds hsrcHolds (hw.disjoint (Ne.symm heq) hsrcNodes hnodes)
  obtain ⟨result, hresult, hbecomes⟩ := hassign
  refine ⟨⟨result.2, w.rosters.set dest result.1⟩, ?_, hw.represents hparts hnodes hbecomes⟩
  simp only [World.assign, hroster, hsource, hresult, Option.bind_eq_bind, Option.bind_some]

/-- The last roster goes out of scope. -/
theorem destroyLast (h : w.Represents (sheets ++ [sheet])) :
    ∃ w', w.destroyLast = some w' ∧ w'.Represents sheets := by
  have hlength := h.length_eq
  obtain ⟨parts, hw, hparts⟩ := h
  rw [List.map_append, List.map_singleton, List.map_eq_append_iff] at hparts
  obtain ⟨parts, lastPart, rfl, hparts, hlast⟩ := hparts
  obtain ⟨nodes, rfl, -⟩ := List.map_eq_singleton_iff.1 hlast
  obtain ⟨rosters, roster, hrosters⟩ : ∃ rosters roster, w.rosters = rosters ++ [roster] :=
    (List.eq_nil_or_concat' w.rosters).resolve_left fun hnil => by simp [hnil] at hlength
  have hlength' : parts.length = rosters.length := by simpa [hrosters] using hw.length_eq
  have hnodes : (parts ++ [nodes])[parts.length]? = some nodes := List.getElem?_concat_length
  have hholds : roster.Holds w.store nodes := by
    refine hw.holds (i := parts.length) ?_ hnodes
    rw [hrosters, hlength', List.getElem?_concat_length]
  obtain ⟨s, hs, hconfined⟩ := hholds.delete
  have hset := hw.set hnodes (new_holds s) hconfined
  refine ⟨⟨s, rosters⟩, ?_, parts, ?_, hparts⟩
  · simp only [World.destroyLast, hrosters, List.getLast?_concat, List.dropLast_concat,
      BballRoster.destroy, hs, Option.bind_eq_bind, Option.bind_some]
  · exact World.Holds.forget (w := ⟨s, rosters⟩) (by simpa [hrosters, hlength'] using hset)

/-- `swapRoster` exchanges two sheets. -/
theorem swapRoster {this other : Nat} {one two : Sheet} (h : w.Represents sheets)
    (hthis : sheets[this]? = some one) (hother : sheets[other]? = some two) :
    ∃ w', w.swapRoster this other = some w' ∧
      w'.Represents ((sheets.set other one).set this two) := by
  have hlength := h.length_eq
  have hltThis := (List.getElem?_eq_some_iff.1 hthis).1
  have hltOther := (List.getElem?_eq_some_iff.1 hother).1
  obtain ⟨w₁, hw₁, h₁⟩ := h.copyConstruct hother
  obtain ⟨w₂, hw₂, h₂⟩ := h₁.assign (List.getElem?_append_left hltOther ▸ hother)
    (List.getElem?_append_left hltThis ▸ hthis)
  rw [List.set_append_left _ _ hltOther] at h₂
  have hltSet : this < (sheets.set other one).length := by rwa [List.length_set]
  have hold : (sheets.set other one ++ [two])[this]? = some (sheets.set other one)[this] := by
    rw [List.getElem?_append_left hltSet, List.getElem?_eq_getElem hltSet]
  have htemp : (sheets.set other one ++ [two])[w.rosters.length]? = some two := by
    have hlast := (sheets.set other one).getElem?_concat_length (a := two)
    rwa [List.length_set, hlength] at hlast
  obtain ⟨w₃, hw₃, h₃⟩ := h₂.assign hold htemp
  rw [List.set_append_left _ _ hltSet] at h₃
  obtain ⟨w₄, hw₄, h₄⟩ := h₃.destroyLast
  refine ⟨w₄, ?_, h₄⟩
  simp only [World.swapRoster, hw₁, hw₂, hw₃, hw₄, Option.bind_eq_bind, Option.bind_some]

end World.Represents

/-! ## Programs -/

/-- An operation succeeds and does to the rosters what it is for. -/
theorem exec_represents {op : Op} (h : w.Represents sheets) (hnames : op.Names w.rosters.length) :
    ∃ result w' sheets', w.exec op = some (result, w') ∧
      op.apply sheets = some (result, sheets') ∧ w'.Represents sheets' := by
  rw [← h.length_eq] at hnames
  have hget : ∀ {i : Nat}, i < sheets.length → ∃ sheet, sheets[i]? = some sheet :=
    fun hlt => ⟨_, List.getElem?_eq_getElem hlt⟩
  cases op with
  | construct => exact ⟨none, w.construct, _, rfl, rfl, h.construct⟩
  | copyConstruct src =>
      obtain ⟨sheet, hsrc⟩ := hget hnames
      obtain ⟨w', hw', h'⟩ := h.copyConstruct hsrc
      exact ⟨none, w', _, by simp [World.exec, hw'], by simp [Op.apply, hsrc], h'⟩
  | assign dest src =>
      obtain ⟨old, hdest⟩ := hget hnames.1
      obtain ⟨sheet, hsrc⟩ := hget hnames.2
      obtain ⟨w', hw', h'⟩ := h.assign hdest hsrc
      exact ⟨none, w', _, by simp [World.exec, hw'], by simp [Op.apply, hdest, hsrc], h'⟩
  | swapRoster this other =>
      obtain ⟨one, hthis⟩ := hget hnames.1
      obtain ⟨two, hother⟩ := hget hnames.2
      obtain ⟨w', hw', h'⟩ := h.swapRoster hthis hother
      exact ⟨none, w', _, by simp [World.exec, hw'], by simp [Op.apply, hthis, hother], h'⟩
  | signPlayer i player =>
      obtain ⟨sheet, hi⟩ := hget hnames
      obtain ⟨w', hw', h'⟩ := h.signPlayer hi player
      exact ⟨some (sheet.sign player).1, w', _, by simp [World.exec, hw'], by simp [Op.apply, hi],
        h'⟩
  | renouncePlayer i firstName lastName =>
      obtain ⟨sheet, hi⟩ := hget hnames
      obtain ⟨w', hw', h'⟩ := h.renouncePlayer hi firstName lastName
      exact ⟨some (sheet.renounce firstName lastName).1, w', _, by simp [World.exec, hw'],
        by simp [Op.apply, hi], h'⟩

/-- A program keeps its rosters in order. -/
theorem run_represents {ops : List Op} {final : World} (h : w.Represents sheets)
    (hrun : w.run ops = some final) : ∃ sheets', final.Represents sheets' := by
  induction ops generalizing w sheets with
  | nil =>
      cases hrun
      exact ⟨sheets, h⟩
  | cons op ops ih =>
      rw [World.run] at hrun
      split at hrun
      · next hnames =>
        obtain ⟨result, w', sheets', hexec, -, h'⟩ := exec_represents h hnames
        rw [hexec] at hrun
        exact ih h' hrun
      · cases hrun

/-- No rosters are represented by no sheets. -/
theorem start_represents (choices : List Nat) : (World.start choices).Represents [] :=
  ⟨[], ⟨rfl, by simp [World.start], by simp⟩, rfl⟩

/-- Following the `next` pointers ends with all players of the nodes. -/
theorem playersFrom_eq {prev : Ptr} {fuel : Nat} (h : Segment s prev nodes none)
    (hfuel : nodes.length < fuel) : playersFrom s fuel (first none nodes) = some nodes.values := by
  induction hfuel using Loops.walk_induction generalizing prev with
  | nil fuel =>
      rfl
  | cons node nodes fuel _ ih =>
      obtain ⟨hcell, hrest⟩ := h
      simp only [first_cons, playersFrom, hcell, ih hrest, Option.bind_eq_bind,
        Option.bind_some, values_cons]

/-- The players of a roster are those of its sheet. -/
theorem World.Represents.players_eq (h : w.Represents sheets) (i : Nat) :
    w.players i = sheets[i]?.map Sheet.players := by
  have hlength := h.length_eq
  by_cases hlt : i < sheets.length
  · have hi := List.getElem?_eq_getElem hlt
    obtain ⟨parts, hw, hparts⟩ := h
    obtain ⟨roster, nodes, hroster, -, hholds, hvalues⟩ := hw.get hparts hi
    simp only [World.players, hroster, hi, Option.bind_eq_bind, Option.bind_some, hholds.head,
      playersFrom_eq hholds.linked hholds.length_lt, hvalues, Option.map_some]
  · rw [List.getElem?_eq_none (Nat.not_lt.1 hlt), World.players,
      List.getElem?_eq_none (hlength ▸ Nat.not_lt.1 hlt)]
    rfl

/-- What a program can rely on: its rosters are chains in order, no operation accesses a null or
deleted node or runs forever, and `signPlayer` and `renouncePlayer` change one entry or nothing. -/
structure World.Correct (w : World) : Prop where
  chains : ∀ {i : Nat} {roster : BballRoster}, w.rosters[i]? = some roster →
    ∃ nodes, roster.Holds w.store nodes ∧ nodes.values.Pairwise Player.Before ∧
      w.players i = some nodes.values
  succeeds : ∀ {op : Op}, op.Names w.rosters.length → ∃ result, w.exec op = some result
  sign_absent : ∀ {i : Nat} {players : List Player} {player : Player}, w.players i = some players →
    (¬ ∃ p ∈ players, p.IsNamed player.firstName player.lastName) →
    ∃ w' front back, w.exec (.signPlayer i player) = some (some true, w') ∧
      players = front ++ back ∧ w'.players i = some (front ++ player :: back) ∧
      ∀ j, j ≠ i → w'.players j = w.players j
  sign_present : ∀ {i : Nat} {players : List Player} {player : Player}, w.players i = some players →
    (∃ p ∈ players, p.IsNamed player.firstName player.lastName) →
    w.exec (.signPlayer i player) = some (some false, w)
  renounce_present : ∀ {i : Nat} {players : List Player} {firstName lastName : StdString},
    w.players i = some players → (∃ p ∈ players, p.IsNamed firstName lastName) →
    ∃ w' front player back, w.exec (.renouncePlayer i firstName lastName) = some (some true, w') ∧
      player.IsNamed firstName lastName ∧ players = front ++ player :: back ∧
      w'.players i = some (front ++ back) ∧ ∀ j, j ≠ i → w'.players j = w.players j
  renounce_absent : ∀ {i : Nat} {players : List Player} {firstName lastName : StdString},
    w.players i = some players → (¬ ∃ p ∈ players, p.IsNamed firstName lastName) →
    w.exec (.renouncePlayer i firstName lastName) = some (some false, w)

namespace World.Represents

/-- The sheet of a roster with these players. -/
theorem sheet_of_players {players : List Player} (h : w.Represents sheets)
    (hplayers : w.players i = some players) :
    ∃ sheet, sheets[i]? = some sheet ∧ sheet.players = players := by
  rwa [h.players_eq, Option.map_eq_some_iff] at hplayers

/-- Writing one sheet changes the players of one roster. -/
theorem players_set {w' : World} {sheet' : Sheet} (h : w.Represents sheets)
    (h' : w'.Represents (sheets.set i sheet')) (hi : sheets[i]? = some sheet) :
    w'.players i = some sheet'.players ∧ ∀ j, j ≠ i → w'.players j = w.players j := by
  refine ⟨?_, fun j hne => ?_⟩
  · rw [h'.players_eq, List.getElem?_set_self (List.getElem?_eq_some_iff.1 hi).1, Option.map_some]
  · rw [h'.players_eq, h.players_eq, List.getElem?_set_ne hne.symm]

/-- Rosters that are sheets are as they should be. -/
theorem toCorrect (h : w.Represents sheets) : w.Correct where
  chains {i roster} hroster := by
    have hlt := (List.getElem?_eq_some_iff.1 hroster).1
    rw [← h.length_eq] at hlt
    have hi := List.getElem?_eq_getElem hlt
    have hplayers := h.players_eq i
    obtain ⟨parts, hw, hparts⟩ := h
    obtain ⟨roster', nodes, hroster', -, hholds, hvalues⟩ := hw.get hparts hi
    obtain rfl : roster' = roster := Option.some.inj (hroster'.symm.trans hroster)
    refine ⟨nodes, hholds, ?_, ?_⟩
    · rw [hvalues]
      exact Sheet.sorted _
    · rw [hplayers, hi, Option.map_some, hvalues]
  succeeds hnames := by
    obtain ⟨result, w', -, hexec, -⟩ := exec_represents h hnames
    exact ⟨(result, w'), hexec⟩
  sign_absent {i players player} hplayers habsent := by
    obtain ⟨sheet, hi, rfl⟩ := h.sheet_of_players hplayers
    obtain ⟨front, back, hsplit, hfront, hback⟩ := Sheet.exists_split habsent
    obtain ⟨w', hw', h'⟩ := h.signPlayer hi player
    have hsign : sheet.sign player = (true, sheet.place player) := if_neg habsent
    rw [hsign] at hw' h'
    obtain ⟨hself, hothers⟩ := h.players_set h' hi
    rw [Sheet.players_place hsplit hfront hback] at hself
    exact ⟨w', front, back, by simp [World.exec, hw'], hsplit, hself, hothers⟩
  sign_present {i players player} hplayers hpresent := by
    obtain ⟨sheet, hi, rfl⟩ := h.sheet_of_players hplayers
    simp [World.exec, h.signPlayer_present hi hpresent]
  renounce_present {i players firstName lastName} hplayers hpresent := by
    obtain ⟨sheet, hi, rfl⟩ := h.sheet_of_players hplayers
    obtain ⟨player, hplayer, hnamed⟩ := hpresent
    obtain ⟨front, back, hsplit⟩ := List.append_of_mem hplayer
    obtain ⟨htrue, hrest⟩ := Sheet.players_renounce hsplit hnamed
    obtain ⟨w', hw', h'⟩ := h.renouncePlayer hi firstName lastName
    obtain ⟨hself, hothers⟩ := h.players_set h' hi
    rw [hrest] at hself
    rw [htrue] at hw'
    exact ⟨w', front, player, back, by simp [World.exec, hw'], hnamed, hsplit, hself, hothers⟩
  renounce_absent {i players firstName lastName} hplayers habsent := by
    obtain ⟨sheet, hi, rfl⟩ := h.sheet_of_players hplayers
    simp [World.exec, h.renouncePlayer_absent hi habsent]

end World.Represents

/-- Every program that constructs, copies, assigns, swaps, signs and renounces leaves its rosters
as they should be. -/
theorem correct_of_run {choices : List Nat} {ops : List Op}
    (h : (World.start choices).run ops = some w) : w.Correct := by
  obtain ⟨sheets, hsheets⟩ := run_represents (start_represents choices) h
  exact hsheets.toCorrect

/-- Three players. -/
def ann : Player := ⟨[65], [80], [49]⟩

def bob : Player := ⟨[66], [80], [50]⟩

def cid : Player := ⟨[67], [79], [51]⟩

/-- Two rosters; the second one is a copy whose only player is renounced, so its tail is stale, and
who gets a new entry at a used address. -/
def sampleOps : List Op :=
  [.construct, .signPlayer 0 bob, .copyConstruct 0, .signPlayer 0 ann,
    .renouncePlayer 1 bob.firstName bob.lastName, .signPlayer 1 cid, .swapRoster 0 1]

/-- The rosters after these operations are as they should be. -/
theorem sample_correct : ∃ w, (World.start [0, 1, 2, 1]).run sampleOps = some w ∧ w.Correct ∧
    w.players 0 = some [cid] ∧ w.players 1 = some [ann, bob] := by
  have hrun : ((World.start [0, 1, 2, 1]).run sampleOps).map
      (fun w => (w.players 0, w.players 1)) = some (some [cid], some [ann, bob]) := by
    decide +kernel
  obtain ⟨w, hw, hplayers⟩ := Option.map_eq_some_iff.1 hrun
  obtain ⟨hzero, hone⟩ := Prod.mk.inj hplayers
  exact ⟨w, hw, correct_of_run hw, hzero, hone⟩

end Coursework.Roster
