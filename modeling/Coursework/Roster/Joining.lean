import Coursework.Roster.Correctness
import Coursework.Roster.Players

/-!
# Joining and searching rosters

`joinRosters` and `checkRoster` sign players one by one on an empty roster. `Sheet.Collects` says
which players such a loop has signed; `joinFirst_collects` and `joinSecond_collects` are the loops,
by induction on the players that are still to be visited. `joined_iff` says when
`joinRosters` does what it is for.
Vocabulary and scope: `Coursework.Roster.World`, `Coursework.Roster.Correctness`.
-/

namespace Coursework.Roster

open Heap

/-- Somebody on the list has the name of `p` and another value. -/
def Conflicts (players : List Player) (p : Player) : Prop :=
  ∃ q ∈ players, q.IsNamed p.firstName p.lastName ∧ q.value ≠ p.value

namespace Sheet

/-- The value of a full name. -/
def lookup (sheet : Sheet) (firstName lastName : StdString) : Option StdString :=
  (sheet.players.find? fun p => p.IsNamed firstName lastName).map Player.value

/-- From `temp` to `temp'`, the players of `rest` that `keep` admits were added. -/
def Collects (keep : Player → Prop) (rest : List Player) (temp temp' : Sheet) : Prop :=
  ∀ p, p ∈ temp'.players ↔ p ∈ temp.players ∨ p ∈ rest ∧ keep p

/-- The names of the players still to be added are not on `temp`. -/
def Lacks (temp : Sheet) (keep : Player → Prop) (rest : List Player) : Prop :=
  ∀ p ∈ rest, keep p → ¬ temp.Has p.firstName p.lastName

variable {sheet temp temp' : Sheet} {keep : Player → Prop} {p : Player} {rest : List Player}

/-- A name without a value is not on the sheet. -/
theorem not_has_of_lookup {firstName lastName : StdString}
    (h : sheet.lookup firstName lastName = none) : ¬ sheet.Has firstName lastName := by
  intro ⟨q, hq, hnamed⟩
  rw [lookup, Option.map_eq_none_iff, List.find?_eq_none] at h
  exact h q hq (by simpa using hnamed)

/-- The value of a name decides whether a player conflicts. -/
theorem conflicts_iff_of_lookup {v : StdString}
    (h : sheet.lookup p.firstName p.lastName = some v) :
    Conflicts sheet.players p ↔ p.value ≠ v := by
  rw [lookup, Option.map_eq_some_iff] at h
  obtain ⟨q, hfind, rfl⟩ := h
  have hq := List.mem_of_find?_eq_some hfind
  have hnamed : q.IsNamed p.firstName p.lastName := by simpa using List.find?_some hfind
  constructor
  · intro ⟨r, hr, hrnamed, hvalue⟩
    obtain ⟨front, back, hsplit⟩ := List.append_of_mem hq
    obtain ⟨hfront, hback⟩ := not_named hsplit hnamed
    rw [hsplit, List.mem_append, List.mem_cons] at hr
    rcases hr with hr | rfl | hr
    · exact (hfront r hr hrnamed).elim
    · exact hvalue.symm
    · exact (hback r hr hrnamed).elim
  · exact fun hvalue => ⟨q, hq, hnamed, hvalue.symm⟩

/-- Nothing is added from no players. -/
theorem Collects.nil (keep : Player → Prop) (temp : Sheet) : Collects keep [] temp temp := by
  intro p
  simp

/-- A player who is not admitted is skipped. -/
theorem Collects.skip (h : Collects keep rest temp temp') (hp : ¬ keep p) :
    Collects keep (p :: rest) temp temp' := by
  intro q
  rw [h q, List.mem_cons]
  constructor
  · rintro (hq | ⟨hq, hkeep⟩)
    · exact .inl hq
    · exact .inr ⟨.inr hq, hkeep⟩
  · rintro (hq | ⟨rfl | hq, hkeep⟩)
    · exact .inl hq
    · exact (hp hkeep).elim
    · exact .inr ⟨hq, hkeep⟩

/-- An admitted player is signed first. -/
theorem Collects.sign (h : Collects keep rest (temp.place p) temp') (hp : keep p)
    (hnew : ¬ temp.Has p.firstName p.lastName) : Collects keep (p :: rest) temp temp' := by
  intro q
  rw [h q, (perm_place hnew).mem_iff, List.mem_cons, List.mem_cons]
  constructor
  · rintro ((rfl | hq) | ⟨hq, hkeep⟩)
    · exact .inr ⟨.inl rfl, hp⟩
    · exact .inl hq
    · exact .inr ⟨.inr hq, hkeep⟩
  · rintro (hq | ⟨rfl | hq, hkeep⟩)
    · exact .inl (.inr hq)
    · exact .inl (.inl rfl)
    · exact .inr ⟨hq, hkeep⟩

/-- The names behind the next player are not on `temp` either. -/
theorem Lacks.tail (h : temp.Lacks keep (p :: rest)) : temp.Lacks keep rest :=
  fun q hq => h q (List.mem_cons_of_mem _ hq)

/-- Signing a player does not sign the ones behind. -/
theorem Lacks.sign (h : temp.Lacks keep (p :: rest)) (hp : keep p)
    (hbefore : ∀ q ∈ rest, p.Before q) : (temp.place p).Lacks keep rest := by
  intro q hq hkeep ⟨r, hr, hnamed⟩
  have hnew := h p List.mem_cons_self hp
  rw [(perm_place hnew).mem_iff, List.mem_cons] at hr
  rcases hr with rfl | hr
  · exact (hbefore q hq).not_named hnamed
  · exact h q (List.mem_cons_of_mem _ hq) hkeep ⟨r, hr, hnamed⟩

end Sheet

variable {w : World} {sheets : List Sheet} {sheet one two temp : Sheet} {i a b : Nat}
  {rest done : List Player}

namespace World.Represents

/-- A member function that only reads, on the nodes of its roster. -/
theorem query {β : Type} {member : BballRoster → Store Node → Option β} {value : β}
    (h : w.Represents sheets) (hi : sheets[i]? = some sheet)
    (hmember : ∀ {roster : BballRoster} {nodes : Nodes Player}, roster.Holds w.store nodes →
      nodes.values = sheet.players → member roster w.store = some value) :
    w.query i member = some value := by
  obtain ⟨parts, hw, hparts⟩ := h
  obtain ⟨roster, nodes, hroster, -, hholds, hvalues⟩ := hw.get hparts hi
  rw [World.query, hroster, Option.bind_eq_bind, Option.bind_some, hmember hholds hvalues]

/-- The number of players of a roster. -/
theorem howManyPlayers (h : w.Represents sheets) (hi : sheets[i]? = some sheet) :
    (w.query i fun roster s => roster.howManyPlayers s) = some sheet.players.length := by
  refine h.query hi fun hholds hvalues => ?_
  rw [howManyPlayers_eq hholds, ← hvalues]
  simp [Nodes.values]

/-- The player of an index. -/
theorem chosen {k : Nat} {p : Player} (h : w.Represents sheets) (hi : sheets[i]? = some sheet)
    (hk : sheet.players[k]? = some p) : w.chosen i k = some p := by
  have hquery : (w.query i fun roster s => roster.choosePlayer s k) = some (some p) := by
    refine h.query hi fun hholds hvalues => ?_
    rw [choosePlayer_eq hholds, hvalues, hk]
  rw [World.chosen, hquery]
  rfl

/-- The value of a name. -/
theorem lookupPlayer {firstName lastName : StdString} (h : w.Represents sheets)
    (hi : sheets[i]? = some sheet) :
    (w.query i fun roster s => roster.lookupPlayer s firstName lastName) =
      some (sheet.lookup firstName lastName) := by
  refine h.query hi fun hholds hvalues => ?_
  rw [lookupPlayer_eq hholds, hvalues]
  rfl

/-- Whether a name is on a roster. -/
theorem playerOnRoster {firstName lastName : StdString} (h : w.Represents sheets)
    (hi : sheets[i]? = some sheet) :
    (w.query i fun roster s => roster.playerOnRoster s firstName lastName) =
      some (decide (sheet.Has firstName lastName)) := by
  refine h.query hi fun hholds hvalues => ?_
  rw [playerOnRoster_eq hholds, hvalues]
  rfl

/-- The nodes of a roster are fewer than the loop bound. -/
theorem length_lt (h : w.Represents sheets) (hi : sheets[i]? = some sheet) :
    sheet.players.length < w.store.limit + 1 := by
  obtain ⟨parts, hw, hparts⟩ := h
  obtain ⟨roster, nodes, -, -, hholds, hvalues⟩ := hw.get hparts hi
  rw [← hvalues]
  simpa [Nodes.values] using hholds.length_lt

/-- A roster is empty exactly if its sheet is. -/
theorem head_eq_none {roster : BballRoster} (h : w.Represents sheets)
    (hi : sheets[i]? = some sheet) (hroster : w.rosters[i]? = some roster) :
    roster.head = none ↔ sheet.players = [] := by
  obtain ⟨parts, hw, hparts⟩ := h
  obtain ⟨roster', nodes, hroster', -, hholds, hvalues⟩ := hw.get hparts hi
  obtain rfl := Option.some.inj (hroster'.symm.trans hroster)
  rw [hholds.head_eq_none_iff, ← hvalues, Nodes.values, List.map_eq_nil_iff]

/-- A new player is signed on the roster declared last. -/
theorem sign {p : Player} (h : w.Represents (sheets ++ [temp]))
    (hnew : ¬ temp.Has p.firstName p.lastName) :
    ∃ w', w.sign sheets.length p = some w' ∧ w'.Represents (sheets ++ [temp.place p]) := by
  obtain ⟨w', hw', h'⟩ := h.signPlayer List.getElem?_concat_length p
  have hsign : temp.sign p = (true, temp.place p) := if_neg hnew
  rw [hsign] at hw' h'
  rw [List.set_append_right _ _ (Nat.le_refl _), Nat.sub_self] at h'
  exact ⟨w', by rw [World.sign, hw']; rfl, h'⟩

end World.Represents

/-! ## Loops -/

/-- The next player to be visited. -/
theorem getElem?_done {p : Player} (h : sheet.players = done ++ p :: rest) :
    sheet.players[done.length]? = some p := by
  rw [h, List.getElem?_append_right (Nat.le_refl _), Nat.sub_self, List.getElem?_cons_zero]

/-- One more sheet does not change the others. -/
theorem getElem?_concat (h : sheets[i]? = some sheet) (temp : Sheet) :
    (sheets ++ [temp])[i]? = some sheet := by
  rw [List.getElem?_append_left (List.getElem?_eq_some_iff.1 h).1, h]

/-- The players behind the next one are behind it in roster order. -/
theorem before_of_split {p : Player} (h : sheet.players = done ++ p :: rest) :
    ∀ q ∈ rest, p.Before q := by
  have hsorted := sheet.sorted
  rw [h, List.pairwise_append, List.pairwise_cons] at hsorted
  exact hsorted.2.1.1

/-- The first loop of `joinRosters` signs the players of `one` without a conflict, and finds out
whether there is a conflict. -/
theorem joinFirst_collects {fuel : Nat} (flag : Bool) (h : w.Represents (sheets ++ [temp]))
    (ha : sheets[a]? = some one) (hb : sheets[b]? = some two)
    (hplayers : one.players = done ++ rest)
    (hlacks : temp.Lacks (¬ Conflicts two.players ·) rest) (hfuel : rest.length < fuel) :
    ∃ flag' w' temp', World.joinFirst a b sheets.length fuel done.length flag w = some (flag', w') ∧
      w'.Represents (sheets ++ [temp']) ∧
      (flag' = true ↔ flag = true ∨ ∃ p ∈ rest, Conflicts two.players p) ∧
      Sheet.Collects (¬ Conflicts two.players ·) rest temp temp' := by
  have ha' := getElem?_concat ha temp
  have hb' := getElem?_concat hb temp
  induction hfuel using Loops.walk_induction generalizing done temp w flag with
  | nil fuel =>
      refine ⟨flag, w, temp, ?_, h, by simp, .nil _ _⟩
      simp [World.joinFirst, h.howManyPlayers ha', hplayers]
  | cons p rest fuel _ ih =>
      have hcount : done.length < one.players.length := by simp [hplayers]
      have hplayers' : one.players = (done ++ [p]) ++ rest := by simp [hplayers]
      have hnext : done.length + 1 = (done ++ [p]).length := by simp
      simp only [World.joinFirst, h.howManyPlayers ha', h.chosen ha' (getElem?_done hplayers),
        h.lookupPlayer hb', Option.bind_eq_bind, Option.bind_some, if_pos hcount, hnext]
      -- what the rest of the loop does after this player is signed
      have hsign : ¬ Conflicts two.players p → ∃ w₁ flag' w' temp',
          w.sign sheets.length p = some w₁ ∧
          World.joinFirst a b sheets.length fuel (done ++ [p]).length flag w₁ = some (flag', w') ∧
          w'.Represents (sheets ++ [temp']) ∧
          (flag' = true ↔ flag = true ∨ ∃ q ∈ p :: rest, Conflicts two.players q) ∧
          Sheet.Collects (¬ Conflicts two.players ·) (p :: rest) temp temp' := by
        intro hkeep
        have hnew := hlacks p List.mem_cons_self hkeep
        obtain ⟨w₁, hw₁, h₁⟩ := h.sign hnew
        obtain ⟨flag', w', temp', hloop, h', hflag, hcollects⟩ := ih flag h₁ hplayers'
          (hlacks.sign hkeep (before_of_split hplayers)) (getElem?_concat ha _)
          (getElem?_concat hb _)
        refine ⟨w₁, flag', w', temp', hw₁, hloop, h', ?_, hcollects.sign hkeep hnew⟩
        simp [hflag, hkeep]
      cases hlookup : two.lookup p.firstName p.lastName with
      | none =>
          have hkeep : ¬ Conflicts two.players p := fun ⟨q, hq, hnamed, _⟩ =>
            Sheet.not_has_of_lookup hlookup ⟨q, hq, hnamed⟩
          obtain ⟨w₁, flag', w', temp', hw₁, hloop, hrest⟩ := hsign hkeep
          refine ⟨flag', w', temp', ?_, hrest⟩
          simp only [hw₁, Option.bind_some, hloop]
      | some v =>
          by_cases hvalue : p.value = v
          · have hkeep : ¬ Conflicts two.players p := fun hconflict =>
              (Sheet.conflicts_iff_of_lookup hlookup).1 hconflict hvalue
            obtain ⟨w₁, flag', w', temp', hw₁, hloop, hrest⟩ := hsign hkeep
            refine ⟨flag', w', temp', ?_, hrest⟩
            simp only [ne_eq, hvalue, not_true_eq_false, if_false, hw₁, Option.bind_some, hloop]
          · have hconflict := (Sheet.conflicts_iff_of_lookup hlookup).2 hvalue
            obtain ⟨flag', w', temp', hloop, h', hflag, hcollects⟩ :=
              ih true h hplayers' hlacks.tail ha' hb'
            refine ⟨flag', w', temp', ?_, h', ?_, hcollects.skip (not_not.2 hconflict)⟩
            · simp only [ne_eq, hvalue, not_false_eq_true, if_true, hloop]
            · simp [hflag, hconflict]

/-- The second loop of `joinRosters` signs the players of `two` whose name is not on `one`. -/
theorem joinSecond_collects {fuel : Nat} (h : w.Represents (sheets ++ [temp]))
    (ha : sheets[a]? = some one) (hb : sheets[b]? = some two)
    (hplayers : two.players = done ++ rest)
    (hlacks : temp.Lacks (fun p => ¬ one.Has p.firstName p.lastName) rest)
    (hfuel : rest.length < fuel) :
    ∃ w' temp', World.joinSecond a b sheets.length fuel done.length w = some w' ∧
      w'.Represents (sheets ++ [temp']) ∧
      Sheet.Collects (fun p => ¬ one.Has p.firstName p.lastName) rest temp temp' := by
  have ha' := getElem?_concat ha temp
  have hb' := getElem?_concat hb temp
  induction hfuel using Loops.walk_induction generalizing done temp w with
  | nil fuel =>
      refine ⟨w, temp, ?_, h, .nil _ _⟩
      simp [World.joinSecond, h.howManyPlayers hb', hplayers]
  | cons p rest fuel _ ih =>
      have hcount : done.length < two.players.length := by simp [hplayers]
      have hplayers' : two.players = (done ++ [p]) ++ rest := by simp [hplayers]
      have hnext : done.length + 1 = (done ++ [p]).length := by simp
      simp only [World.joinSecond, h.howManyPlayers hb', h.chosen hb' (getElem?_done hplayers),
        h.playerOnRoster ha', Option.bind_eq_bind, Option.bind_some, if_pos hcount, hnext]
      by_cases hhas : one.Has p.firstName p.lastName
      · obtain ⟨w', temp', hloop, h', hcollects⟩ := ih h hplayers' hlacks.tail ha' hb'
        refine ⟨w', temp', ?_, h', hcollects.skip (not_not.2 hhas)⟩
        simp only [hhas, decide_true, not_true_eq_false, if_false, hloop]
      · have hnew := hlacks p List.mem_cons_self hhas
        obtain ⟨w₁, hw₁, h₁⟩ := h.sign hnew
        obtain ⟨w', temp', hloop, h', hcollects⟩ := ih h₁ hplayers'
          (hlacks.sign hhas (before_of_split hplayers)) (getElem?_concat ha _)
          (getElem?_concat hb _)
        refine ⟨w', temp', ?_, h', hcollects.sign hhas hnew⟩
        simp only [hhas, decide_false, Bool.false_eq_true, not_false_eq_true, if_true, hw₁,
          Option.bind_some, hloop]

/-- The loop of `checkRoster` signs the players that are searched for. -/
theorem checkFrom_collects {fuel : Nat} {fsearch lsearch : StdString}
    (h : w.Represents (sheets ++ [temp])) (ha : sheets[a]? = some one)
    (hplayers : one.players = done ++ rest)
    (hlacks : temp.Lacks (World.selects fsearch lsearch ·) rest) (hfuel : rest.length < fuel) :
    ∃ w' temp', World.checkFrom fsearch lsearch a sheets.length fuel done.length w = some w' ∧
      w'.Represents (sheets ++ [temp']) ∧
      Sheet.Collects (World.selects fsearch lsearch ·) rest temp temp' := by
  have ha' := getElem?_concat ha temp
  induction hfuel using Loops.walk_induction generalizing done temp w with
  | nil fuel =>
      refine ⟨w, temp, ?_, h, .nil _ _⟩
      simp [World.checkFrom, h.howManyPlayers ha', hplayers]
  | cons p rest fuel _ ih =>
      have hcount : done.length < one.players.length := by simp [hplayers]
      have hplayers' : one.players = (done ++ [p]) ++ rest := by simp [hplayers]
      have hnext : done.length + 1 = (done ++ [p]).length := by simp
      simp only [World.checkFrom, h.howManyPlayers ha', h.chosen ha' (getElem?_done hplayers),
        Option.bind_eq_bind, Option.bind_some, if_pos hcount, hnext]
      by_cases hselects : World.selects fsearch lsearch p = true
      · have hnew := hlacks p List.mem_cons_self hselects
        obtain ⟨w₁, hw₁, h₁⟩ := h.sign hnew
        obtain ⟨w', temp', hloop, h', hcollects⟩ := ih h₁ hplayers'
          (hlacks.sign hselects (before_of_split hplayers)) (getElem?_concat ha _)
        refine ⟨w', temp', ?_, h', hcollects.sign hselects hnew⟩
        simp only [if_pos hselects, hw₁, Option.bind_some, hloop]
      · obtain ⟨w', temp', hloop, h', hcollects⟩ := ih h hplayers' hlacks.tail ha'
        refine ⟨w', temp', ?_, h', hcollects.skip hselects⟩
        simp only [if_neg hselects, hloop]

/-! ## Whole calls -/

/-- What a joined roster and the returned value should be. -/
structure Joined (one two players : List Player) (result : Bool) : Prop where
  players_iff : ∀ p, p ∈ players ↔ p ∈ one ∧ ¬ Conflicts two p ∨ p ∈ two ∧ ¬ Conflicts one p
  result_iff : result = false ↔ ∃ p ∈ one, Conflicts two p

/-- A roster has no conflict with itself. -/
theorem not_conflicts_self {p : Player} (hp : p ∈ sheet.players) :
    ¬ Conflicts sheet.players p := by
  intro ⟨q, hq, hnamed, hvalue⟩
  obtain ⟨front, back, hsplit⟩ := List.append_of_mem hp
  obtain ⟨hfront, hback⟩ := Sheet.not_named hsplit ⟨rfl, rfl⟩
  rw [hsplit, List.mem_append, List.mem_cons] at hq
  rcases hq with hq | rfl | hq
  · exact hfront q hq hnamed
  · exact hvalue rfl
  · exact hback q hq hnamed

/-- Joining a roster with itself, or with an empty one, gives the roster. -/
theorem joined_left (h : one = two ∨ two.players = []) :
    Joined one.players two.players one.players true := by
  refine ⟨fun p => ?_, ?_⟩
  · rcases h with rfl | hempty
    · constructor
      · exact fun hp => .inl ⟨hp, not_conflicts_self hp⟩
      · rintro (⟨hp, -⟩ | ⟨hp, -⟩) <;> exact hp
    · simp [hempty, Conflicts]
  · rcases h with rfl | hempty
    · constructor
      · exact fun hfalse => (Bool.noConfusion hfalse)
      · intro ⟨p, hp, hconflict⟩
        exact (not_conflicts_self hp hconflict).elim
    · simp [hempty, Conflicts]

/-- The empty roster is not what joining it with another one should give. -/
theorem not_joined_empty {result : Bool} (hone : one.players = []) (htwo : two.players ≠ []) :
    ¬ Joined one.players two.players one.players result := by
  intro h
  obtain ⟨p, hp⟩ := List.exists_mem_of_ne_nil _ htwo
  have hmem := (h.players_iff p).2 (.inr ⟨hp, by simp [hone, Conflicts]⟩)
  simp [hone] at hmem

/-- What the two loops have signed. -/
theorem joined_of_collects {temp' joined : Sheet} {flag : Bool}
    (hfirst : Sheet.Collects (¬ Conflicts two.players ·) one.players .empty temp')
    (hsecond : Sheet.Collects (fun p => ¬ one.Has p.firstName p.lastName) two.players temp' joined)
    (hflag : flag = true ↔ ∃ p ∈ one.players, Conflicts two.players p) :
    Joined one.players two.players joined.players (!flag) := by
  refine ⟨fun p => ?_, by rw [Bool.not_eq_false', hflag]⟩
  have hempty : p ∉ Sheet.empty.players := List.not_mem_nil
  rw [hsecond p, hfirst p, or_iff_right hempty]
  constructor
  · rintro (hp | ⟨hp, hhas⟩)
    · exact .inl hp
    · exact .inr ⟨hp, fun ⟨q, hq, hnamed, _⟩ => hhas ⟨q, hq, hnamed⟩⟩
  · rintro (hp | ⟨hp, hconflict⟩)
    · exact .inl hp
    · by_cases hhas : one.Has p.firstName p.lastName
      · -- the name is on both rosters with one value, so the entry is the same
        obtain ⟨q, hq, hnamed⟩ := hhas
        have hvalue : q.value = p.value := by_contra fun hne => hconflict ⟨q, hq, hnamed, hne⟩
        obtain rfl : q = p := by
          obtain ⟨hfirst, hlast⟩ := hnamed
          cases q
          cases p
          simp_all
        exact .inl ⟨hq, not_conflicts_self hp⟩
      · exact .inr ⟨hp, hhas⟩

/-- A roster is assigned to the result, and the temporary roster is destroyed: every branch of the
two functions ends so. -/
theorem World.Represents.finish {source : Sheet} {j k : Nat} (h : w.Represents (sheets ++ [temp]))
    (hj : j < sheets.length) (hk : (sheets ++ [temp])[k]? = some source) :
    ∃ w₂ w', w.assign j k = some w₂ ∧ w₂.destroyLast = some w' ∧
      w'.Represents (sheets.set j source) := by
  have hold := getElem?_concat (List.getElem?_eq_getElem hj) temp
  obtain ⟨w₂, hw₂, h₂⟩ := h.assign hold hk
  rw [List.set_append_left _ _ hj] at h₂
  obtain ⟨w', hw', h'⟩ := h₂.destroyLast
  exact ⟨w₂, w', hw₂, hw', h'⟩

/-- The rosters that a declared program names are there. -/
theorem World.Represents.roster (h : w.Represents sheets) (hi : sheets[i]? = some sheet) :
    ∃ r, w.rosters[i]? = some r ∧ (r.head = none ↔ sheet.players = []) := by
  have hlt := (List.getElem?_eq_some_iff.1 hi).1
  rw [h.length_eq] at hlt
  exact ⟨_, List.getElem?_eq_getElem hlt, h.head_eq_none hi (List.getElem?_eq_getElem hlt)⟩

/-- If the first roster is empty, the result is empty as well, whatever the second one holds. -/
theorem World.Represents.joinWith_first_empty {j : Nat} (h : w.Represents (sheets ++ [.empty]))
    (ha : sheets[a]? = some one) (hb : sheets[b]? = some two) (hj : j < sheets.length)
    (hab : a ≠ b) (hone : one.players = []) :
    ∃ w₂ w', w.joinWith a b j sheets.length = some (true, w₂) ∧ w₂.destroyLast = some w' ∧
      w'.Represents (sheets.set j one) := by
  have ha' := getElem?_concat ha .empty
  obtain ⟨r, hr, hhead⟩ := h.roster ha'
  obtain ⟨r', hr', hhead'⟩ := h.roster (getElem?_concat hb .empty)
  by_cases htwo : two.players = []
  · obtain rfl : one = .empty := Sheet.ext hone
    obtain ⟨w₂, w', hw₂, hw', h'⟩ := h.finish hj List.getElem?_concat_length
    refine ⟨w₂, w', ?_, hw', h'⟩
    rw [World.joinWith, if_neg hab, hr, hr']
    simp only [Option.bind_eq_bind, Option.bind_some]
    rw [if_pos ⟨hhead.2 hone, hhead'.2 htwo⟩, hw₂]
    rfl
  · -- here the second roster should have been assigned
    obtain ⟨w₂, w', hw₂, hw', h'⟩ := h.finish hj ha'
    refine ⟨w₂, w', ?_, hw', h'⟩
    rw [World.joinWith, if_neg hab, hr, hr']
    simp only [Option.bind_eq_bind, Option.bind_some]
    rw [if_neg (fun hnone => htwo (hhead'.1 hnone.2)), if_pos (hhead.2 hone), hw₂]
    rfl

/-- If only the second roster is empty, the result is the first one. -/
theorem World.Represents.joinWith_second_empty {j : Nat} (h : w.Represents (sheets ++ [.empty]))
    (ha : sheets[a]? = some one) (hb : sheets[b]? = some two) (hj : j < sheets.length)
    (hab : a ≠ b) (hone : one.players ≠ []) (htwo : two.players = []) :
    ∃ w₂ w', w.joinWith a b j sheets.length = some (true, w₂) ∧ w₂.destroyLast = some w' ∧
      w'.Represents (sheets.set j one) := by
  have ha' := getElem?_concat ha .empty
  obtain ⟨r, hr, hhead⟩ := h.roster ha'
  obtain ⟨r', hr', hhead'⟩ := h.roster (getElem?_concat hb .empty)
  obtain ⟨w₂, w', hw₂, hw', h'⟩ := h.finish hj ha'
  refine ⟨w₂, w', ?_, hw', h'⟩
  rw [World.joinWith, if_neg hab, hr, hr']
  simp only [Option.bind_eq_bind, Option.bind_some]
  rw [if_neg (fun hnone => hone (hhead.1 hnone.1)),
    if_neg (fun hnone => hone (hhead.1 hnone)), if_pos (hhead'.2 htwo), hw₂]
  rfl

/-- If both rosters hold players, the two loops collect the players of the result. -/
theorem World.Represents.joinWith_both {j : Nat} (h : w.Represents (sheets ++ [.empty]))
    (ha : sheets[a]? = some one) (hb : sheets[b]? = some two) (hj : j < sheets.length)
    (hab : a ≠ b) (hone : one.players ≠ []) (htwo : two.players ≠ []) :
    ∃ result w₂ w' joined, w.joinWith a b j sheets.length = some (result, w₂) ∧
      w₂.destroyLast = some w' ∧ w'.Represents (sheets.set j joined) ∧
      Joined one.players two.players joined.players result := by
  obtain ⟨r, hr, hhead⟩ := h.roster (getElem?_concat ha .empty)
  obtain ⟨r', hr', hhead'⟩ := h.roster (getElem?_concat hb .empty)
  have hlacks : Sheet.empty.Lacks (¬ Conflicts two.players ·) one.players :=
    fun _ _ _ ⟨_, hq, _⟩ => List.not_mem_nil hq
  obtain ⟨flag, w₁, temp', hfirst, h₁, hflag, hcollects⟩ :=
    joinFirst_collects false h ha hb (List.nil_append _).symm hlacks
      (h.length_lt (getElem?_concat ha _))
  have hlacks' : temp'.Lacks (fun p => ¬ one.Has p.firstName p.lastName) two.players := by
    intro p _ hnot ⟨q, hq, hnamed⟩
    rcases (hcollects q).1 hq with hq | ⟨hq, -⟩
    · exact List.not_mem_nil hq
    · exact hnot ⟨q, hq, hnamed⟩
  obtain ⟨w₂, joined, hsecond, h₂, hcollects'⟩ :=
    joinSecond_collects h₁ ha hb (List.nil_append _).symm hlacks'
      (h₁.length_lt (getElem?_concat hb _))
  obtain ⟨w₃, w', hw₃, hw', h'⟩ := h₂.finish hj List.getElem?_concat_length
  refine ⟨!flag, w₃, w', joined, ?_, hw', h', ?_⟩
  · rw [World.joinWith, if_neg hab, hr, hr']
    simp only [Option.bind_eq_bind, Option.bind_some]
    rw [if_neg (fun hnone => hone (hhead.1 hnone.1)),
      if_neg (fun hnone => hone (hhead.1 hnone)), if_neg (fun hnone => htwo (hhead'.1 hnone))]
    rw [List.length_nil] at hfirst hsecond
    simp only [hfirst, hsecond, hw₃, Option.bind_some]
  · exact joined_of_collects hcollects hcollects' (by simpa using hflag)

/-- `joinRosters` writes one roster, and writes the right one unless it returns the empty first
roster in place of the second. -/
theorem World.Represents.joinRosters {j : Nat} (h : w.Represents sheets)
    (ha : sheets[a]? = some one) (hb : sheets[b]? = some two) (hj : j < sheets.length) :
    ∃ result w' joined, w.joinRosters a b j = some (result, w') ∧
      w'.Represents (sheets.set j joined) ∧
      (Joined one.players two.players joined.players result ↔
        one.players ≠ [] ∨ two.players = []) := by
  have hstart := h.construct
  rw [World.joinRosters, ← h.length_eq]
  by_cases hab : a = b
  · subst hab
    obtain rfl : one = two := Option.some.inj (ha.symm.trans hb)
    obtain ⟨w₂, w', hw₂, hw', h'⟩ := hstart.finish hj (getElem?_concat ha _)
    refine ⟨true, w', one, ?_, h', ?_⟩
    · simp only [World.joinWith, if_pos, hw₂, hw', Option.bind_eq_bind, Option.bind_some]
    · exact iff_of_true (joined_left (.inl rfl)) (em (one.players = [])).symm
  by_cases hone : one.players = []
  · obtain ⟨w₂, w', hw₂, hw', h'⟩ := hstart.joinWith_first_empty ha hb hj hab hone
    refine ⟨true, w', one, ?_, h', ?_⟩
    · simp only [hw₂, hw', Option.bind_eq_bind, Option.bind_some]
    · by_cases htwo : two.players = []
      · exact iff_of_true (joined_left (.inr htwo)) (.inr htwo)
      · exact iff_of_false (not_joined_empty hone htwo) (fun hor => hor.elim (· hone) htwo)
  by_cases htwo : two.players = []
  · obtain ⟨w₂, w', hw₂, hw', h'⟩ := hstart.joinWith_second_empty ha hb hj hab hone htwo
    refine ⟨true, w', one, ?_, h', iff_of_true (joined_left (.inr htwo)) (.inl hone)⟩
    simp only [hw₂, hw', Option.bind_eq_bind, Option.bind_some]
  · obtain ⟨result, w₂, w', joined, hw₂, hw', h', hjoined⟩ :=
      hstart.joinWith_both ha hb hj hab hone htwo
    refine ⟨result, w', joined, ?_, h', iff_of_true hjoined (.inl hone)⟩
    simp only [hw₂, hw', Option.bind_eq_bind, Option.bind_some]

/-- `checkRoster` writes one roster with the players that are searched for. -/
theorem World.Represents.checkRoster {fsearch lsearch : StdString} {j : Nat}
    (h : w.Represents sheets) (ha : sheets[a]? = some one) (hj : j < sheets.length) :
    ∃ w' found, w.checkRoster fsearch lsearch a j = some w' ∧
      w'.Represents (sheets.set j found) ∧ ∀ p, p ∈ found.players ↔ p ∈ one.players ∧
        (fsearch = wildcard ∧ lsearch = wildcard ∨ selects fsearch lsearch p) := by
  have hlength := h.length_eq
  have hstart := h.construct
  by_cases hwild : fsearch = wildcard ∧ lsearch = wildcard
  · obtain ⟨w₂, w', hw₂, hw', h'⟩ := hstart.finish hj (getElem?_concat ha _)
    refine ⟨w', one, ?_, h', by simp [hwild]⟩
    rw [World.checkRoster]
    simp only [if_pos hwild, hw₂, hw', Option.bind_eq_bind, Option.bind_some]
  · have hlacks : Sheet.empty.Lacks (selects fsearch lsearch ·) one.players :=
      fun _ _ _ ⟨_, hq, _⟩ => List.not_mem_nil hq
    obtain ⟨w₁, found, hcheck, h₁, hcollects⟩ := checkFrom_collects hstart ha
      (List.nil_append _).symm hlacks (hstart.length_lt (getElem?_concat ha _))
    obtain ⟨w₂, w', hw₂, hw', h'⟩ := h₁.finish hj List.getElem?_concat_length
    refine ⟨w', found, ?_, h', fun p => ?_⟩
    · rw [List.length_nil, hlength] at hcheck
      rw [hlength] at hw₂
      rw [World.checkRoster]
      simp only [if_neg hwild, hcheck, hw₂, hw', Option.bind_eq_bind, Option.bind_some]
    · rw [hcollects p]
      simp [hwild, Sheet.empty]

/-- The value of a name ahead of the last player is replaced. -/
theorem World.Represents.resignPlayer_found {firstName lastName : StdString} (value : StdString)
    (h : w.Represents sheets) (hi : sheets[i]? = some sheet)
    (hhas : ∃ p ∈ sheet.players.dropLast, p.IsNamed firstName lastName) :
    ∃ w', (w.call i fun roster s => roster.resignPlayer s firstName lastName value) =
        some (true, w') ∧ w'.Represents (sheets.set i (sheet.resign firstName lastName value)) :=
  h.call hi fun hholds hvalues => resignPlayer_sheet hholds hvalues hhas

/-- Without the name ahead of the last player nothing changes. -/
theorem World.Represents.resignPlayer_missed {firstName lastName : StdString} (value : StdString)
    (h : w.Represents sheets) (hi : sheets[i]? = some sheet) (hne : sheet.players ≠ [])
    (hhas : ¬ ∃ p ∈ sheet.players.dropLast, p.IsNamed firstName lastName) :
    (w.call i fun roster s => roster.resignPlayer s firstName lastName value) =
      some (false, w) := by
  refine h.call_eq_self hi fun hholds hvalues => ?_
  refine resignPlayer_absent hholds (fun hnil => hne (by rw [← hvalues, hnil]; rfl)) ?_
  rw [hvalues]
  intro p hp hnamed
  exact hhas ⟨p, hp, hnamed⟩

/-- `resignPlayer` on a roster. -/
theorem World.Represents.resignPlayer {firstName lastName value : StdString}
    (h : w.Represents sheets) (hi : sheets[i]? = some sheet) (hne : sheet.players ≠ []) :
    ∃ result w' sheet',
      (w.call i fun roster s => roster.resignPlayer s firstName lastName value) =
        some (result, w') ∧ w'.Represents (sheets.set i sheet') := by
  by_cases hhas : ∃ p ∈ sheet.players.dropLast, p.IsNamed firstName lastName
  · obtain ⟨w', hw', h'⟩ := h.resignPlayer_found value hi hhas
    exact ⟨true, w', _, hw', h'⟩
  · refine ⟨false, w, sheet, h.resignPlayer_missed value hi hne hhas, ?_⟩
    obtain ⟨hlt, hget⟩ := List.getElem?_eq_some_iff.1 hi
    rwa [← hget, List.set_getElem_self]

/-- `signOrResign` on a roster. -/
theorem World.Represents.signOrResign {firstName lastName value : StdString}
    (h : w.Represents sheets) (hi : sheets[i]? = some sheet) (hne : sheet.players ≠ []) :
    ∃ w', (w.call i fun roster s => roster.signOrResign s firstName lastName value) =
        some (true, w') ∧ w'.Represents (sheets.set i
          (if ∃ p ∈ sheet.players.dropLast, p.IsNamed firstName lastName then
            sheet.resign firstName lastName value
          else (sheet.sign ⟨firstName, lastName, value⟩).2)) :=
  h.call hi fun hholds hvalues => signOrResign_sheet hholds hvalues hne

/-! ## Everything a program can do -/

/-- The states that a program can reach with all functions of the class and the two non-member
functions, called on declared rosters. -/
inductive Reachable (choices : List Nat) : World → Prop where
  | start : Reachable choices (World.start choices)
  | exec {w op result w'} : Reachable choices w → op.Names w.rosters.length →
      w.exec op = some (result, w') → Reachable choices w'
  | resignPlayer {w i firstName lastName value result w'} : Reachable choices w →
      (w.call i fun roster s => roster.resignPlayer s firstName lastName value) =
        some (result, w') → Reachable choices w'
  | signOrResign {w i firstName lastName value result w'} : Reachable choices w →
      (w.call i fun roster s => roster.signOrResign s firstName lastName value) =
        some (result, w') → Reachable choices w'
  | joinRosters {w bbOne bbTwo bbJoined result w'} : Reachable choices w →
      bbOne < w.rosters.length → bbTwo < w.rosters.length → bbJoined < w.rosters.length →
      w.joinRosters bbOne bbTwo bbJoined = some (result, w') → Reachable choices w'
  | checkRoster {w fsearch lsearch bbOne bbResult w'} : Reachable choices w →
      bbOne < w.rosters.length → bbResult < w.rosters.length →
      w.checkRoster fsearch lsearch bbOne bbResult = some w' → Reachable choices w'

/-- A call of a member function on a roster that is not declared, or that breaks off. -/
theorem World.Represents.of_call {result : Bool × World}
    {member : BballRoster → Store Node → Option (Bool × BballRoster × Store Node)}
    (h : w.Represents sheets) (hcall : w.call i member = some result) :
    ∃ roster sheet, w.rosters[i]? = some roster ∧ sheets[i]? = some sheet ∧
      member roster w.store ≠ none := by
  cases hroster : w.rosters[i]? with
  | none => simp [World.call, hroster] at hcall
  | some roster =>
      have hlt := (List.getElem?_eq_some_iff.1 hroster).1
      rw [← h.length_eq] at hlt
      refine ⟨roster, _, rfl, List.getElem?_eq_getElem hlt, fun hnone => ?_⟩
      simp [World.call, hroster, hnone] at hcall

/-- Every state that a program can reach is represented by sheets. -/
theorem Reachable.represents {choices : List Nat} (h : Reachable choices w) :
    ∃ sheets, w.Represents sheets := by
  induction h with
  | start => exact ⟨[], start_represents choices⟩
  | exec _ hnames hexec ih =>
      obtain ⟨sheets, h⟩ := ih
      obtain ⟨result, w', sheets', hexec', -, h'⟩ := exec_represents h hnames
      obtain ⟨-, rfl⟩ := Prod.mk.inj (Option.some.inj (hexec.symm.trans hexec'))
      exact ⟨sheets', h'⟩
  | resignPlayer _ hcall ih =>
      obtain ⟨sheets, h⟩ := ih
      obtain ⟨roster, sheet, hroster, hi, hdefined⟩ := h.of_call hcall
      -- on an empty roster the call would read a null pointer
      have hne : sheet.players ≠ [] := by
        intro hnil
        have hhead := (h.head_eq_none hi hroster).2 hnil
        simp [BballRoster.resignPlayer, BballRoster.resignFrom, hhead, Store.load] at hdefined
      obtain ⟨result, w', sheet', hcall', h'⟩ := h.resignPlayer hi hne
      obtain ⟨-, rfl⟩ := Prod.mk.inj (Option.some.inj (hcall.symm.trans hcall'))
      exact ⟨_, h'⟩
  | signOrResign _ hcall ih =>
      obtain ⟨sheets, h⟩ := ih
      obtain ⟨roster, sheet, hroster, hi, hdefined⟩ := h.of_call hcall
      have hne : sheet.players ≠ [] := by
        intro hnil
        have hhead := (h.head_eq_none hi hroster).2 hnil
        simp [BballRoster.signOrResign, BballRoster.resignPlayer, BballRoster.resignFrom, hhead,
          Store.load] at hdefined
      obtain ⟨w', hcall', h'⟩ := h.signOrResign hi hne
      obtain ⟨-, rfl⟩ := Prod.mk.inj (Option.some.inj (hcall.symm.trans hcall'))
      exact ⟨_, h'⟩
  | joinRosters _ hone htwo hjoined hjoin ih =>
      obtain ⟨sheets, h⟩ := ih
      rw [← h.length_eq] at hone htwo hjoined
      obtain ⟨result, w', joined, hjoin', h', -⟩ := h.joinRosters (List.getElem?_eq_getElem hone)
        (List.getElem?_eq_getElem htwo) hjoined
      obtain ⟨-, rfl⟩ := Prod.mk.inj (Option.some.inj (hjoin.symm.trans hjoin'))
      exact ⟨_, h'⟩
  | checkRoster _ hone hresult hcheck ih =>
      obtain ⟨sheets, h⟩ := ih
      rw [← h.length_eq] at hone hresult
      obtain ⟨w', found, hcheck', h', -⟩ :=
        h.checkRoster (List.getElem?_eq_getElem hone) hresult
      obtain rfl := Option.some.inj (hcheck.symm.trans hcheck')
      exact ⟨_, h'⟩

/-- What `joinRosters` is for: the joined roster has the players it should have, in order, the
returned value tells whether there was no conflict, and no other roster changes. -/
structure World.Joins (w w' : World) (bbOne bbTwo bbJoined : Nat) (result : Bool) : Prop where
  joined : ∃ one two players, w.players bbOne = some one ∧ w.players bbTwo = some two ∧
    w'.players bbJoined = some players ∧ players.Pairwise Player.Before ∧
    Joined one two players result
  unchanged : ∀ k, k ≠ bbJoined → w'.players k = w.players k

/-- `joinRosters` succeeds, and it does what it is for unless the first roster is empty and the
second one is not. -/
theorem joins_iff {choices : List Nat} {j : Nat} (h : Reachable choices w)
    (ha : a < w.rosters.length) (hb : b < w.rosters.length) (hj : j < w.rosters.length) :
    ∃ result w', w.joinRosters a b j = some (result, w') ∧
      (w.Joins w' a b j result ↔ w.players a ≠ some [] ∨ w.players b = some []) := by
  obtain ⟨sheets, hsheets⟩ := h.represents
  rw [← hsheets.length_eq] at ha hb hj
  have hone := List.getElem?_eq_getElem ha
  have htwo := List.getElem?_eq_getElem hb
  obtain ⟨result, w', joined, hjoin, h', hiff⟩ := hsheets.joinRosters hone htwo hj
  obtain ⟨hself, hothers⟩ := hsheets.players_set h' (List.getElem?_eq_getElem hj)
  have hplayersOne := hsheets.players_eq a
  have hplayersTwo := hsheets.players_eq b
  rw [hone, Option.map_some] at hplayersOne
  rw [htwo, Option.map_some] at hplayersTwo
  refine ⟨result, w', hjoin, ?_⟩
  rw [hplayersOne, hplayersTwo, ne_eq, Option.some.injEq, Option.some.injEq, ← ne_eq, ← hiff]
  constructor
  · intro ⟨⟨one, two, players, hone', htwo', hplayers, _, hjoined⟩, _⟩
    obtain rfl := Option.some.inj (hplayersOne.symm.trans hone')
    obtain rfl := Option.some.inj (hplayersTwo.symm.trans htwo')
    obtain rfl := Option.some.inj (hself.symm.trans hplayers)
    exact hjoined
  · intro hjoined
    exact ⟨⟨_, _, _, hplayersOne, hplayersTwo, hself, joined.sorted, hjoined⟩, hothers⟩

/-- A program that runs reaches its last state. -/
theorem Reachable.run {choices : List Nat} {ops : List Op} {final : World} (h : Reachable choices w)
    (hrun : w.run ops = some final) : Reachable choices final := by
  induction ops generalizing w with
  | nil =>
      cases hrun
      exact h
  | cons op ops ih =>
      rw [World.run] at hrun
      split at hrun
      · next hnames =>
        obtain ⟨⟨result, w'⟩, hexec, hrun⟩ := Option.bind_eq_some_iff.1 hrun
        exact ih (h.exec hnames hexec) hrun
      · cases hrun

/-- Three rosters, the first two with a player each. -/
def pairOps : List Op :=
  [.construct, .construct, .construct, .signPlayer 0 ann, .signPlayer 1 bob]

/-- Joining the first two gives both players. -/
theorem pair_joins : ∃ w w', (World.start []).run pairOps = some w ∧
    w.joinRosters 0 1 2 = some (true, w') ∧ w.Joins w' 0 1 2 true := by
  have hrun : ((World.start []).run pairOps).map (fun w => (w.rosters.length, w.players 0,
      (w.joinRosters 0 1 2).map Prod.fst)) = some (3, some [ann], some true) := by
    decide +kernel
  obtain ⟨w, hw, hplayers⟩ := Option.map_eq_some_iff.1 hrun
  simp only [Prod.mk.injEq] at hplayers
  obtain ⟨hlength, hone, htrue⟩ := hplayers
  have hlt : ∀ {k : Nat}, k < 3 → k < w.rosters.length := fun hk => hlength ▸ hk
  obtain ⟨result, w', hjoin, hiff⟩ := joins_iff (Reachable.start.run hw) (hlt (by decide : 0 < 3))
    (hlt (by decide : 1 < 3)) (hlt (by decide : 2 < 3))
  obtain rfl : result = true := by simpa [hjoin] using htrue
  exact ⟨w, w', hw, hjoin, hiff.2 (.inl (by simp [hone]))⟩

/-- Joining an empty roster with one that is not empty gives the empty one. -/
theorem empty_first_not_joins : ∃ w w' result,
    (World.start []).run [.construct, .construct, .construct, .signPlayer 1 bob] = some w ∧
      w.joinRosters 0 1 2 = some (result, w') ∧ ¬ w.Joins w' 0 1 2 result := by
  have hrun : ((World.start []).run
      [.construct, .construct, .construct, .signPlayer 1 bob]).bind (fun w =>
        (w.joinRosters 0 1 2).map fun r => (w.players 0, w.players 1, r.2.players 2)) =
      some (some [], some [bob], some []) := by
    decide +kernel
  obtain ⟨w, hw, hjoin⟩ := Option.bind_eq_some_iff.1 hrun
  obtain ⟨⟨result, w'⟩, hjoin, hplayers⟩ := Option.map_eq_some_iff.1 hjoin
  simp only [Prod.mk.injEq] at hplayers
  obtain ⟨hone, htwo, hthree⟩ := hplayers
  refine ⟨w, w', result, hw, hjoin, fun h => ?_⟩
  obtain ⟨one, two, players, hone', htwo', hplayers, -, hjoined⟩ := h.joined
  obtain rfl := Option.some.inj (hone.symm.trans hone')
  obtain rfl := Option.some.inj (htwo.symm.trans htwo')
  obtain rfl := Option.some.inj (hthree.symm.trans hplayers)
  have hbob := (hjoined.players_iff bob).2 (.inr ⟨List.mem_singleton_self _, by simp [Conflicts]⟩)
  exact List.not_mem_nil hbob

end Coursework.Roster
