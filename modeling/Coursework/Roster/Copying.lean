import Coursework.Roster.Signing

/-!
# What removals, copies and assignments do to a chain

`renouncePlayer`, the destructor, the copy constructor and the assignment, in the same form as
`signPlayer`. A copy leaves the nodes of its source alone, because every node it writes is its own
or new.
Vocabulary and scope: `Coursework.Roster.Signing`.
-/

namespace Coursework.Roster

open Heap

variable {roster : BballRoster} {s : Store Node} {nodes front back : Nodes Player} {prev : Ptr}
  {player : Player}

/-! ## Removal -/

/-- The first node is taken out. The tail of a roster that becomes empty is left as it is. -/
theorem dropFront_eq {node : Nat × Player} (h : roster.Holds s (node :: nodes)) :
    ∃ result, roster.dropFront s ⟨node.2, first none nodes, none⟩ = some result ∧
      Becomes s (node :: nodes) result nodes.values := by
  have hhead : roster.head = some node.1 := h.head
  obtain ⟨hcell, hrest⟩ := h.linked
  obtain ⟨hnot, hnodup⟩ := List.nodup_cons.1 h.nodup
  have hkept : ∀ a ∈ Nodes.addresses nodes, a ≠ node.1 := fun a ha heq => hnot (heq ▸ ha)
  cases nodes with
  | nil =>
      refine ⟨_, by simp [BballRoster.dropFront, Store.delete, hhead, hcell]; rfl,
        [], ⟨rfl, trivial, fun hne => (hne rfl).elim, .nil⟩, rfl, fun a ha _ => ?_, by simp⟩
      have hne : a ≠ node.1 := by simpa using ha
      simp [hne]
  | cons y rest =>
      have hy : y.1 ≠ node.1 := hkept y.1 List.mem_cons_self
      obtain ⟨hycell, hrest'⟩ := hrest
      refine ⟨_, by
        simp [BballRoster.dropFront, Store.modify, Store.delete, hhead, hcell, hycell, hy.symm]
        rfl, y :: rest, ⟨rfl, ?_, fun _ => ?_, hnodup⟩, rfl, fun a ha _ => ?_, ?_⟩
      · refine Segment.relink_first ⟨hycell, hrest'⟩ (by simp [hy]) fun a ha => ?_
        have hay : a ≠ y.1 := fun heq => (List.nodup_cons.1 hnodup).1 (heq ▸ ha)
        simp [hay, hkept a (List.mem_cons_of_mem _ ha)]
      · exact h.tail (List.cons_ne_nil _ _)
      · simp only [addresses_cons, List.mem_cons, not_or] at ha
        simp [ha.1, ha.2.1]
      · exact fun a ha => .inl (List.mem_cons_of_mem _ ha)

/-- The last of several nodes is taken out. -/
theorem dropRear_eq {x node : Nat × Player} (h : roster.Holds s (front ++ [x] ++ [node])) :
    ∃ result, roster.dropRear s ⟨node.2, none, some x.1⟩ = some result ∧
      Becomes s (front ++ [x] ++ [node]) result (Nodes.values (front ++ [x])) := by
  have htail : roster.tail = some node.1 := by
    rw [h.tail (by simp), last_concat]
  obtain ⟨hleft, hcell, -⟩ := segment_append.1 h.linked
  have hxcell : s.cell? x.1 = some ⟨x.2, some node.1, last none front⟩ :=
    (segment_append.1 hleft).2.1
  have hnodup := h.nodup
  obtain ⟨hx, hfront, -⟩ := distinct_ends [] hnodup
  rw [addresses_append] at hnodup
  refine ⟨_, by
    simp [BballRoster.dropRear, Store.modify, Store.delete, htail, hcell, hxcell, hx]; rfl,
    front ++ [x], ⟨?_, ?_, fun _ => ?_, (List.nodup_append.1 hnodup).1⟩, rfl, fun a ha _ => ?_, ?_⟩
  · rw [h.head]
    simp
  · refine hleft.relink_last (by simp) fun a ha => ?_
    simp [(hfront a ha).1, (hfront a ha).2]
  · rw [last_concat]
  · simp only [addresses_append, addresses_cons, addresses_nil, List.mem_append, List.mem_cons,
      List.not_mem_nil, or_false, not_or] at ha
    simp [ha.1.2, ha.2]
  · intro a ha
    rw [addresses_append]
    exact .inl (List.mem_append_left _ ha)

/-- A node between two others is taken out. -/
theorem dropMiddle_eq {x node y : Nat × Player}
    (h : roster.Holds s (front ++ [x] ++ ([node] ++ y :: back))) :
    ∃ s', BballRoster.dropMiddle s (some node.1) = some s' ∧
      Becomes s (front ++ [x] ++ ([node] ++ y :: back)) (roster, s')
        (Nodes.values (front ++ [x]) ++ Nodes.values (y :: back)) := by
  obtain ⟨hleft, hright⟩ := segment_append.1 h.linked
  rw [last_concat] at hright
  have hxcell : s.cell? x.1 = some ⟨x.2, some node.1, last none front⟩ :=
    (segment_append.1 hleft).2.1
  have hcell : s.cell? node.1 = some ⟨node.2, some y.1, some x.1⟩ := hright.1
  have hycell : s.cell? y.1 = some ⟨y.2, first none back, some node.1⟩ := hright.2.1
  obtain ⟨hxy, hfront, hback⟩ := distinct_ends [node] h.nodup
  have hmiddle : (node.1 :: Nodes.addresses (front ++ [x] ++ y :: back)).Nodup := by
    have hnodup := h.nodup
    rw [addresses_append, List.singleton_append, addresses_cons] at hnodup
    rw [addresses_append]
    exact List.perm_middle.nodup_iff.1 hnodup
  obtain ⟨hnode, hnodup⟩ := List.nodup_cons.1 hmiddle
  simp only [addresses_append, addresses_cons, addresses_nil, List.mem_append, List.mem_cons,
    List.not_mem_nil, or_false, not_or] at hnode
  obtain ⟨⟨hnfront, hnx⟩, hny, hnback⟩ := hnode
  refine ⟨_, by
    simp [BballRoster.dropMiddle, Store.modify, Store.delete, hcell, hxcell, hycell, hnx, hny, hxy]
    rfl,
    front ++ [x] ++ y :: back, ⟨?_, ?_, fun _ => ?_, hnodup⟩, by simp, fun a ha _ => ?_, ?_⟩
  · rw [h.head]
    simp
  · refine h.linked.splice [node] [] ?_ ?_ (fun a ha => ?_) (fun a ha => ?_) trivial
    · simp [hxcell, Ne.symm hnx]
    · simp [hycell, Ne.symm hny, Ne.symm hxy]
    · have hne : a ≠ node.1 := fun heq => hnfront (heq ▸ ha)
      simp [hne, (hfront a ha).1, (hfront a ha).2]
    · have hne : a ≠ node.1 := fun heq => hnback (heq ▸ ha)
      simp [hne, (hback a ha).1, (hback a ha).2]
  · rw [h.tail (by simp)]
    simp
  · simp only [addresses_append, addresses_cons, addresses_nil, List.mem_append, List.mem_cons,
      List.not_mem_nil, or_false, not_or] at ha
    simp [ha.1.2, ha.2.1, ha.2.2.1]
  · intro a ha
    simp only [addresses_append, addresses_cons, List.mem_append, List.mem_cons] at ha ⊢
    tauto

/-- The loop that looks for a player comes to `node`, by induction on the nodes `rest` between the
traversing pointer and `node`. -/
theorem removeFrom_eq (rest : Nodes Player) {x node y : Nat × Player} {fuel : Nat}
    {firstName lastName : StdString}
    (h : roster.Holds s (front ++ [x] ++ ([node] ++ y :: back)))
    (hsegment : Segment s prev (rest ++ node :: y :: back) none) (hfuel : rest.length < fuel)
    (hrest : ∀ p ∈ rest.values, ¬ p.IsNamed firstName lastName)
    (hnode : node.2.IsNamed firstName lastName) :
    ∃ result, roster.removeFrom s firstName lastName fuel
        (first none (rest ++ node :: y :: back)) = some (true, result) ∧
      Becomes s (front ++ [x] ++ ([node] ++ y :: back)) result
        (Nodes.values (front ++ [x]) ++ Nodes.values (y :: back)) := by
  induction hfuel using Loops.walk_induction generalizing prev with
  | nil fuel =>
      obtain ⟨s', hs', hbecomes⟩ := dropMiddle_eq h
      refine ⟨(roster, s'), ?_, hbecomes⟩
      have hcell : s.cell? node.1 = some ⟨node.2, some y.1, prev⟩ := hsegment.1
      simp only [List.nil_append, first_cons, BballRoster.removeFrom, Store.load_some, hcell,
        Option.bind_eq_bind, Option.bind_some, reduceCtorEq, if_false, if_pos hnode, hs']
  | cons r rest fuel _ ih =>
      obtain ⟨hr, hrest⟩ := List.forall_mem_cons.1 hrest
      have hcell : s.cell? r.1 =
          some ⟨r.2, first none (rest ++ node :: y :: back), prev⟩ := hsegment.1
      have hnext : first none (rest ++ node :: y :: back) ≠ none := by
        cases rest <;> simp
      simp only [List.cons_append, first_cons, BballRoster.removeFrom, Store.load_some, hcell,
        Option.bind_eq_bind, Option.bind_some, if_neg hnext, if_neg hr]
      exact ih hsegment.2 hrest

/-- Renouncing a player who is not on the roster changes nothing. -/
theorem renouncePlayer_absent (h : roster.Holds s nodes) {firstName lastName : StdString}
    (hhas : ¬ ∃ p ∈ nodes.values, p.IsNamed firstName lastName) :
    roster.renouncePlayer s firstName lastName = some (false, roster, s) := by
  simp only [BballRoster.renouncePlayer, playerOnRoster_eq h, hhas, decide_false,
    Option.bind_eq_bind, Option.bind_some, Bool.false_eq_true, not_false_eq_true, if_true]

/-- Renouncing the one player with a name takes this player off. -/
theorem renouncePlayer_present {before after : List Player} {firstName lastName : StdString}
    (h : roster.Holds s nodes) (hsplit : nodes.values = before ++ player :: after)
    (hnamed : player.IsNamed firstName lastName)
    (hbefore : ∀ p ∈ before, ¬ p.IsNamed firstName lastName)
    (hafter : ∀ p ∈ after, ¬ p.IsNamed firstName lastName) :
    ∃ result, roster.renouncePlayer s firstName lastName = some (true, result) ∧
      Becomes s nodes result (before ++ after) := by
  have hhas : ∃ p ∈ nodes.values, p.IsNamed firstName lastName :=
    ⟨player, by rw [hsplit]; simp, hnamed⟩
  obtain ⟨front, rest, rfl, rfl, hrest⟩ := List.map_eq_append_iff.1 hsplit
  obtain ⟨node, back, rfl, rfl, rfl⟩ := List.map_eq_cons_iff.1 hrest
  obtain ⟨f, rest, init, t, hf, ht, hhead, htail, hfcell, htcell⟩ := h.ends (by simp)
  have hrenounce : roster.renouncePlayer s firstName lastName =
      if f.2.IsNamed firstName lastName then
        (roster.dropFront s ⟨f.2, first none rest, none⟩).bind fun result => some (true, result)
      else if t.2.IsNamed firstName lastName then
        (roster.dropRear s ⟨t.2, none, last none init⟩).bind fun result => some (true, result)
      else roster.removeFrom s firstName lastName (s.limit + 1) roster.head := by
    simp only [BballRoster.renouncePlayer, playerOnRoster_eq h, hhas, decide_true, hhead, htail,
      Option.bind_eq_bind, Option.bind_some, not_true_eq_false, if_false, Store.load_some, hfcell,
      htcell]
  rw [hrenounce]
  -- the player is the first one, the last one, or between two others
  cases front with
  | nil =>
      obtain ⟨rfl, rfl⟩ := List.cons.inj hf
      obtain ⟨result, hresult, hbecomes⟩ := dropFront_eq h
      exact ⟨result, by rw [if_pos hnamed, hresult]; rfl, hbecomes⟩
  | cons head front =>
      obtain ⟨rfl, -⟩ := List.cons.inj hf
      rw [if_neg (hbefore head.2 List.mem_cons_self)]
      obtain ⟨front', x, hx⟩ :=
        (List.eq_nil_or_concat' (head :: front)).resolve_left (List.cons_ne_nil _ _)
      rw [hx] at h ht hbefore ⊢
      rcases List.eq_nil_or_concat' back with rfl | ⟨back, y, rfl⟩
      · obtain ⟨rfl, hlast⟩ := List.append_inj' ht rfl
        obtain rfl := List.singleton_inj.1 hlast
        obtain ⟨result, hresult, hbecomes⟩ := dropRear_eq h
        rw [last_concat]
        refine ⟨result, by rw [if_pos hnamed, hresult]; rfl, ?_⟩
        simpa [Nodes.values] using hbecomes
      · have hlast : t = y := by
          rw [← List.cons_append, ← List.append_assoc] at ht
          exact (List.singleton_inj.1 (List.append_inj' ht rfl).2).symm
        have hrear : ¬ t.2.IsNamed firstName lastName := hlast ▸ hafter y.2 (by simp)
        obtain ⟨y', back', hy⟩ := List.exists_cons_of_ne_nil (show back ++ [y] ≠ [] by simp)
        rw [hy] at h ⊢
        have hfuel : (front' ++ [x]).length < s.limit + 1 := by
          have hnodes := h.length_lt
          simp only [List.length_append, List.length_cons] at hnodes ⊢
          omega
        rw [if_neg hrear, h.head]
        exact removeFrom_eq _ h h.linked hfuel hbefore hnamed

/-! ## Whole rosters -/

/-- Deleting a chain ends and removes its cells only. -/
theorem deleteFrom_eq {fuel : Nat} (h : Segment s prev nodes none)
    (hnodup : nodes.addresses.Nodup) (hfuel : nodes.length < fuel) :
    ∃ s', BballRoster.deleteFrom fuel s (first none nodes) = some s' ∧
      ∀ a, a ∉ nodes.addresses → s'.cell? a = s.cell? a := by
  induction hfuel using Loops.walk_induction generalizing s prev with
  | nil fuel =>
      exact ⟨s, rfl, fun _ _ => rfl⟩
  | cons node nodes fuel _ ih =>
      obtain ⟨hcell, hrest⟩ := h
      obtain ⟨hnot, hnodup⟩ := List.nodup_cons.1 hnodup
      have hframe : Segment (s.erase node.1) (some node.1) nodes none := by
        refine hrest.frame fun a ha => ?_
        have hne : a ≠ node.1 := fun heq => hnot (heq ▸ ha)
        rw [Store.cell?_erase, if_neg hne]
      obtain ⟨s', hs', hkept⟩ := ih hframe hnodup
      refine ⟨s', ?_, fun a ha => ?_⟩
      · simp only [first_cons, BballRoster.deleteFrom, hcell, Option.bind_eq_bind, Option.bind_some,
          Store.delete_eq hcell, hs']
      · rw [addresses_cons, List.mem_cons, not_or] at ha
        rw [hkept a ha.2, Store.cell?_erase, if_neg ha.1]

/-- Deleting the nodes of a roster. -/
theorem BballRoster.Holds.delete (h : roster.Holds s nodes) :
    ∃ s', BballRoster.deleteFrom (s.limit + 1) s roster.head = some s' ∧
      Confined s s' nodes.addresses [] := by
  obtain ⟨s', hs', hkept⟩ := deleteFrom_eq h.linked h.nodup h.length_lt
  exact ⟨s', by rw [h.head, hs'], fun a ha _ => hkept a ha, by simp⟩

/-- The empty roster. -/
theorem new_holds (s : Store Node) : BballRoster.new.Holds s [] :=
  ⟨rfl, trivial, fun hne => (hne rfl).elim, .nil⟩

/-- Only a roster without nodes has no head. -/
theorem BballRoster.Holds.head_eq_none_iff (h : roster.Holds s nodes) :
    roster.head = none ↔ nodes = [] := by
  rw [h.head]
  cases nodes <;> simp

/-- Two rosters have the same head only if both are empty. -/
theorem BballRoster.Holds.empty_of_head_eq {src : BballRoster} {srcNodes : Nodes Player}
    (h : roster.Holds s nodes) (hsrc : src.Holds s srcNodes)
    (hdisj : ∀ a ∈ srcNodes.addresses, a ∉ nodes.addresses) (heq : roster.head = src.head) :
    nodes = [] ∧ srcNodes = [] := by
  cases srcNodes with
  | nil => exact ⟨h.head_eq_none_iff.1 (heq.trans (hsrc.head_eq_none_iff.2 rfl)), rfl⟩
  | cons srcNode srcNodes =>
      cases nodes with
      | nil => exact absurd (hsrc.head_eq_none_iff.1 (heq ▸ h.head)) (List.cons_ne_nil _ _)
      | cons node nodes =>
          have hhead := heq
          rw [h.head, hsrc.head, first_cons, first_cons, Option.some.injEq] at hhead
          exact absurd (List.mem_cons.2 (.inl hhead.symm)) (hdisj srcNode.1 List.mem_cons_self)

/-- A roster elsewhere keeps its nodes. -/
theorem BballRoster.Holds.frame {s' : Store Node} {old new : List Nat} (h : roster.Holds s nodes)
    (hconfined : Confined s s' old new) (hdisj : ∀ a ∈ nodes.addresses, a ∉ old) :
    roster.Holds s' nodes ∧ ∀ a ∈ nodes.addresses, a ∉ new := by
  obtain ⟨hcells, hnew⟩ := hconfined.disjoint h.linked.allocated hdisj
  exact ⟨⟨h.head, h.linked.frame hcells, h.tail, h.nodup⟩, hnew⟩

/-- The copying loop appends the rest of the source, by induction on the nodes `rest` still to be
copied. -/
theorem copyFrom_eq {rest : Nodes Player} {fuel : Nat} (h : roster.Holds s nodes)
    (hsrc : Segment s prev rest none) (hdisj : ∀ a ∈ rest.addresses, a ∉ nodes.addresses)
    (hfuel : rest.length < fuel) :
    ∃ result, BballRoster.copyFrom fuel roster s (first none rest) = some result ∧
      Becomes s nodes result (nodes.values ++ rest.values) := by
  induction hfuel using Loops.walk_induction generalizing roster s nodes prev with
  | nil fuel =>
      exact ⟨(roster, s), rfl, nodes, h, by simp, .refl s _⟩
  | cons node rest fuel _ ih =>
      obtain ⟨⟨roster', s'⟩, hinsert, nodes', hholds, hvalues, hconfined⟩ :=
        insertPlayerToRear_eq h node.2
      obtain ⟨hkept, hnew⟩ := hconfined.disjoint hsrc.allocated hdisj
      obtain ⟨hcell, hrest⟩ := hsrc.frame hkept
      have hold := hsrc.1
      obtain ⟨result, hresult, nodes'', hholds', hvalues', hconfined'⟩ :=
        ih hholds hrest fun a ha => hnew a (List.mem_cons_of_mem _ ha)
      dsimp only at hcell hresult
      refine ⟨result, ?_, nodes'', hholds', ?_, hconfined.trans hconfined'⟩
      · simp only [first_cons, BballRoster.copyFrom, hold, hinsert, Option.bind_eq_bind,
          Option.bind_some, hcell, hresult]
      · rw [hvalues', hvalues, values_cons, List.append_assoc, List.singleton_append]

/-- A copy has the players of its source. -/
theorem copy_eq (h : roster.Holds s nodes) :
    ∃ result, roster.copy s = some result ∧ Becomes s [] result nodes.values := by
  rw [BballRoster.copy, h.head]
  exact copyFrom_eq (new_holds s) h.linked (by simp) h.length_lt

/-- An assignment from another roster. -/
theorem assign_eq {src : BballRoster} {srcNodes : Nodes Player} (h : roster.Holds s nodes)
    (hsrc : src.Holds s srcNodes) (hdisj : ∀ a ∈ srcNodes.addresses, a ∉ nodes.addresses) :
    ∃ result, roster.assign s src = some result ∧ Becomes s nodes result srcNodes.values := by
  by_cases heq : roster.head = src.head
  · obtain ⟨rfl, rfl⟩ := h.empty_of_head_eq hsrc hdisj heq
    exact ⟨(roster, s), by rw [BballRoster.assign, if_pos heq], [], h, rfl, .refl s _⟩
  · obtain ⟨s', hs', hconfined⟩ := h.delete
    obtain ⟨hsrc', -⟩ := hsrc.frame hconfined hdisj
    by_cases hsrcnone : src.head = none
    -- the old nodes are deleted, and nothing is copied
    · have hnone : roster.head ≠ none := fun hnone => heq (hnone.trans hsrcnone.symm)
      have hempty : srcNodes = [] := hsrc.head_eq_none_iff.1 hsrcnone
      refine ⟨(.new, s'), ?_, [], new_holds s', by rw [hempty], hconfined⟩
      simp only [BballRoster.assign, if_neg heq, if_pos hsrcnone, if_neg hnone, hs',
        Option.bind_eq_bind, Option.bind_some]
    -- the copy goes into a roster that is empty, or has been made so
    · obtain ⟨result, hresult, nodes', hholds, hvalues, hconfined'⟩ :=
        copyFrom_eq (new_holds s') hsrc'.linked (by simp) hsrc'.length_lt
      refine ⟨result, ?_, nodes', hholds, hvalues, hconfined.trans hconfined'⟩
      rw [← hsrc.head] at hresult
      by_cases hnone : roster.head = none
      · have hs : s = s' := by simpa [hnone, BballRoster.deleteFrom] using hs'
        subst hs
        rw [BballRoster.assign, if_neg heq, if_neg hsrcnone, if_neg (not_not.2 hnone)]
        exact hresult
      · rw [BballRoster.assign, if_neg heq, if_neg hsrcnone, if_pos hnone, hs']
        exact hresult

end Coursework.Roster
