import Coursework.Roster.Copying

/-!
# Looking up and changing one player

`lookupPlayer`, `choosePlayer`, `resignPlayer` and `signOrResign` on a roster that holds a chain of
nodes. `resignPlayer` reads the node behind `head`, so the roster must not be empty, and it never
looks at the last player.
Vocabulary and scope: `Coursework.Roster.Signing`.
-/

namespace Coursework.Roster

open Heap

variable {roster : BballRoster} {s : Store Node} {nodes : Nodes Player} {prev : Ptr}
  {firstName lastName value : StdString}

/-- The lookup ends with the value of the first player of the name. -/
theorem lookupFrom_eq {fuel : Nat} (h : Segment s prev nodes none) (hfuel : nodes.length < fuel) :
    BballRoster.lookupFrom s firstName lastName fuel (first none nodes) =
      some ((nodes.values.find? fun p => p.IsNamed firstName lastName).map Player.value) := by
  induction hfuel using Loops.walk_induction generalizing prev with
  | nil fuel =>
      rfl
  | cons node nodes fuel _ ih =>
      obtain ⟨hcell, hrest⟩ := h
      simp only [first_cons, BballRoster.lookupFrom, hcell, Option.bind_eq_bind, Option.bind_some,
        values_cons, List.find?_cons]
      by_cases hnamed : node.2.IsNamed firstName lastName
      · simp [hnamed]
      · simp [hnamed, ih hrest]

/-- `lookupPlayer` finds the value of a name. -/
theorem lookupPlayer_eq (h : roster.Holds s nodes) :
    roster.lookupPlayer s firstName lastName =
      some ((nodes.values.find? fun p => p.IsNamed firstName lastName).map Player.value) := by
  rw [BballRoster.lookupPlayer, h.head]
  exact lookupFrom_eq h.linked h.length_lt

/-- Walking along a chain leads to the rest of it. -/
theorem advance_eq {i : Nat} (h : Segment s prev nodes none) (hi : i ≤ nodes.length) :
    BballRoster.advance s i (first none nodes) = some (first none (nodes.drop i)) := by
  induction i generalizing prev nodes with
  | zero => rfl
  | succ i ih =>
      cases nodes with
      | nil => simp at hi
      | cons node nodes =>
          obtain ⟨hcell, hrest⟩ := h
          rw [List.length_cons] at hi
          simp only [first_cons, BballRoster.advance, Store.load_some, hcell, Option.bind_eq_bind,
            Option.bind_some, List.drop_succ_cons]
          exact ih hrest (by omega)

/-- `choosePlayer` gives the player at an index. -/
theorem choosePlayer_eq (h : roster.Holds s nodes) (i : Nat) :
    roster.choosePlayer s i = some nodes.values[i]? := by
  unfold BballRoster.choosePlayer
  have hlength : nodes.values.length = nodes.length := by simp [Nodes.values]
  by_cases hnil : nodes = []
  · subst hnil
    have hnone : roster.head = none := h.head
    rw [if_pos hnone]
    rfl
  · obtain ⟨f, rest, rfl⟩ := List.exists_cons_of_ne_nil hnil
    rw [if_neg (by simp [h.head]), howManyPlayers_eq h, Option.bind_eq_bind, Option.bind_some]
    by_cases hlt : i < (f :: rest).length
    · have hadvance := advance_eq h.linked hlt.le
      obtain ⟨node, hnode⟩ : ∃ node, (f :: rest)[i]? = some node :=
        ⟨_, List.getElem?_eq_getElem hlt⟩
      have hdrop : (f :: rest).drop i = node :: (f :: rest).drop (i + 1) := by
        rw [List.drop_eq_getElem_cons hlt]
        rw [List.getElem?_eq_getElem hlt] at hnode
        rw [Option.some.inj hnode]
      have hlinked := h.linked
      rw [← List.take_append_drop i (f :: rest), segment_append, hdrop] at hlinked
      have hcell := hlinked.2.1
      rw [hdrop, ← h.head] at hadvance
      rw [if_neg (by omega), Int.toNat_natCast, hadvance, Option.bind_eq_bind, Option.bind_some,
        first_cons, Store.load_some, hcell, Option.bind_eq_bind, Option.bind_some]
      rw [Nodes.values, List.getElem?_map, hnode]
      rfl
    · rw [if_pos (by omega), List.getElem?_eq_none (by omega)]

/-! ## `resignPlayer` -/

/-- Nobody ahead of the last player has the name. -/
theorem resignFrom_absent {fuel : Nat} (h : Segment s prev nodes none) (hne : nodes ≠ [])
    (hfuel : nodes.length < fuel)
    (habsent : ∀ p ∈ nodes.values.dropLast, ¬ p.IsNamed firstName lastName) :
    BballRoster.resignFrom s firstName lastName value fuel (first none nodes) =
      some (false, s) := by
  induction hfuel using Loops.walk_induction generalizing prev with
  | nil fuel => exact absurd rfl hne
  | cons node nodes fuel _ ih =>
      obtain ⟨hcell, hrest⟩ := h
      simp only [first_cons, BballRoster.resignFrom, Store.load_some, hcell, Option.bind_eq_bind,
        Option.bind_some]
      cases nodes with
      | nil => rfl
      | cons y rest =>
          have hnot : ¬ node.2.IsNamed firstName lastName := habsent _ List.mem_cons_self
          have hafter := ih hrest (List.cons_ne_nil _ _) fun p hp =>
            habsent p (List.mem_cons_of_mem _ hp)
          simpa [hnot] using hafter

/-- The node of a player that is not the last one gets a new value. -/
theorem resignFrom_present {fuel : Nat} {front back : Nodes Player} {node : Nat × Player}
    (h : Segment s prev (front ++ node :: back) none) (hback : back ≠ [])
    (hfuel : front.length < fuel) (hnamed : node.2.IsNamed firstName lastName)
    (hfront : ∀ p ∈ front.values, ¬ p.IsNamed firstName lastName) :
    BballRoster.resignFrom s firstName lastName value fuel (first none (front ++ node :: back)) =
      some (true, s.set node.1 ⟨{ node.2 with value }, first none back, last prev front⟩) := by
  induction hfuel using Loops.walk_induction generalizing prev with
  | nil fuel =>
      obtain ⟨y, rest, rfl⟩ := List.exists_cons_of_ne_nil hback
      obtain ⟨hcell, -⟩ := h
      simp [BballRoster.resignFrom, hcell, hnamed, Store.modify]
  | cons x front fuel _ ih =>
      obtain ⟨hcell, hrest⟩ := h
      have hnot : ¬ x.2.IsNamed firstName lastName := hfront _ List.mem_cons_self
      have hafter := ih hrest fun p hp => hfront p (List.mem_cons_of_mem _ hp)
      have hnext : first none (front ++ node :: back) ≠ none := by
        rw [first_append, first_cons]
        cases front <;> simp
      simp only [List.cons_append, first_cons, last_cons, BballRoster.resignFrom, Store.load_some,
        hcell, Option.bind_eq_bind, Option.bind_some, if_neg hnot]
      exact (if_neg hnext).trans hafter

/-- The nodes with a new value are the same nodes in the same order. -/
theorem becomes_resigned {front back : Nodes Player} {node : Nat × Player}
    (h : roster.Holds s (front ++ node :: back)) :
    Becomes s (front ++ node :: back)
      (roster, s.set node.1 ⟨{ node.2 with value }, first none back, last none front⟩)
      (front.values ++ { node.2 with value } :: back.values) := by
  have hnodup := h.nodup
  simp only [addresses_append, addresses_cons, List.nodup_append, List.nodup_cons,
    List.mem_cons] at hnodup
  obtain ⟨-, ⟨hback, -⟩, hfront⟩ := hnodup
  obtain ⟨hleft, hcell, hright⟩ := segment_append.1 h.linked
  refine ⟨front ++ (node.1, { node.2 with value }) :: back, ⟨?_, ?_, fun _ => ?_, ?_⟩, by simp, ?_⟩
  · simpa using h.head
  · refine segment_append.2 ⟨hleft.frame fun a ha => ?_, ?_, hright.frame fun a ha => ?_⟩
    · have hne : a ≠ node.1 := hfront a ha _ (.inl rfl)
      rw [Store.cell?_set, if_neg hne]
    · rw [Store.cell?_set, if_pos rfl]
    · have hne : a ≠ node.1 := fun heq => hback (heq ▸ ha)
      rw [Store.cell?_set, if_neg hne]
  · simpa using h.tail (by simp)
  · simpa using h.nodup
  · refine ⟨fun a ha _ => ?_, fun a ha => .inl (by simpa using ha)⟩
    have hne : a ≠ node.1 := fun heq => ha (by simp [heq])
    rw [Store.cell?_set, if_neg hne]

/-- The value of a player who is not the last one is replaced. -/
theorem resignPlayer_present {player : Player} {before after : List Player}
    (h : roster.Holds s nodes) (hsplit : nodes.values = before ++ player :: after)
    (hafter : after ≠ []) (hnamed : player.IsNamed firstName lastName)
    (hbefore : ∀ p ∈ before, ¬ p.IsNamed firstName lastName) :
    ∃ result, roster.resignPlayer s firstName lastName value = some (true, result) ∧
      Becomes s nodes result (before ++ { player with value } :: after) := by
  obtain ⟨front, rest, rfl, rfl, hrest⟩ := List.map_eq_append_iff.1 hsplit
  obtain ⟨node, back, rfl, rfl, rfl⟩ := List.map_eq_cons_iff.1 hrest
  have hback : back ≠ [] := fun hnil => hafter (by rw [hnil]; rfl)
  have hfuel : front.length < s.limit + 1 := by
    have hlength := h.length_lt
    rw [List.length_append] at hlength
    omega
  refine ⟨_, ?_, becomes_resigned h⟩
  rw [BballRoster.resignPlayer, h.head, resignFrom_present h.linked hback hfuel hnamed hbefore]
  rfl

/-- `resignPlayer` on a roster where nobody, or only the last player, has the name. -/
theorem resignPlayer_absent (h : roster.Holds s nodes) (hne : nodes ≠ [])
    (habsent : ∀ p ∈ nodes.values.dropLast, ¬ p.IsNamed firstName lastName) :
    roster.resignPlayer s firstName lastName value = some (false, roster, s) := by
  rw [BballRoster.resignPlayer, h.head, resignFrom_absent h.linked hne h.length_lt habsent]
  rfl

/-- The program breaks off on an empty roster. -/
theorem resignPlayer_empty (h : roster.Holds s []) :
    roster.resignPlayer s firstName lastName value = none := by
  have hhead : roster.head = none := h.head
  simp [BballRoster.resignPlayer, BballRoster.resignFrom, hhead, Store.load]

/-! ## On a sheet -/

variable {sheet : Sheet}

/-- The value of a name that somebody ahead of the last player has is replaced. -/
theorem resignPlayer_sheet (h : roster.Holds s nodes) (hvalues : nodes.values = sheet.players)
    (hhas : ∃ p ∈ sheet.players.dropLast, p.IsNamed firstName lastName) :
    ∃ result, roster.resignPlayer s firstName lastName value = some (true, result) ∧
      Becomes s nodes result (sheet.resign firstName lastName value).players := by
  obtain ⟨player, hplayer, hnamed⟩ := hhas
  have hne : sheet.players ≠ [] := fun hnil => by simp [hnil] at hplayer
  obtain ⟨front, back, hsplit⟩ := List.append_of_mem hplayer
  have hplayers : sheet.players = front ++ player :: (back ++ [sheet.players.getLast hne]) := by
    conv_lhs => rw [← List.dropLast_append_getLast hne, hsplit]
    simp
  obtain ⟨hfront, -⟩ := Sheet.not_named hplayers hnamed
  rw [Sheet.players_resign hplayers hnamed]
  exact resignPlayer_present h (hvalues.trans hplayers) (by simp) hnamed hfront

/-- `signOrResign` replaces a value, or does what `signPlayer` does. -/
theorem signOrResign_sheet (h : roster.Holds s nodes) (hvalues : nodes.values = sheet.players)
    (hne : sheet.players ≠ []) :
    ∃ result, roster.signOrResign s firstName lastName value = some (true, result) ∧
      Becomes s nodes result (if ∃ p ∈ sheet.players.dropLast, p.IsNamed firstName lastName then
        sheet.resign firstName lastName value
        else (sheet.sign ⟨firstName, lastName, value⟩).2).players := by
  by_cases hhas : ∃ p ∈ sheet.players.dropLast, p.IsNamed firstName lastName
  · obtain ⟨result, hresult, hbecomes⟩ := resignPlayer_sheet h hvalues hhas
    rw [if_pos hhas]
    refine ⟨result, ?_, hbecomes⟩
    simp only [BballRoster.signOrResign, hresult, Option.bind_eq_bind, Option.bind_some, if_true]
  · have hnodes : nodes ≠ [] := fun hnil => hne (by rw [← hvalues, hnil]; rfl)
    have habsent : ∀ p ∈ nodes.values.dropLast, ¬ p.IsNamed firstName lastName := by
      rw [hvalues]
      exact fun p hp hnamed => hhas ⟨p, hp, hnamed⟩
    obtain ⟨result, hsign, hbecomes⟩ := signPlayer_sheet h hvalues ⟨firstName, lastName, value⟩
    rw [if_neg hhas]
    refine ⟨result, ?_, hbecomes⟩
    simp only [BballRoster.signOrResign, resignPlayer_absent h hnodes habsent, hsign,
      Option.bind_eq_bind, Option.bind_some, Bool.false_eq_true, if_false, not_false_eq_true,
      if_true]

end Coursework.Roster
