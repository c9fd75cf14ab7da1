import Coursework.Loops.Counting
import Coursework.Roster.Program

/-!
# What signing a player does to a chain

The read-only loops and `signPlayer`, started on a roster that holds a chain of nodes. Every
result says that the function ends without an access to a null or deleted node, which players
the chain has afterwards, and that only cells of the roster and new cells changed. The loops are
handled by induction on the nodes still to be visited.
Vocabulary and scope: `Coursework.Roster.Program`.
-/

namespace Coursework.Roster

open Heap

/-- The roster is the doubly linked list of these nodes, between `head` and `tail`. The tail of
an empty roster may be any pointer. -/
structure BballRoster.Holds (roster : BballRoster) (s : Store Node) (nodes : Nodes Player) :
    Prop where
  head : roster.head = first none nodes
  linked : Segment s none nodes none
  tail : nodes ≠ [] → roster.tail = last none nodes
  nodup : nodes.addresses.Nodup

/-- The roster and the store after a change: the roster holds these players, and only its old
nodes and new ones were touched. -/
def Becomes (s : Store Node) (nodes : Nodes Player) (result : BballRoster × Store Node)
    (players : List Player) : Prop :=
  ∃ nodes', result.1.Holds result.2 nodes' ∧ nodes'.values = players ∧
    Confined s result.2 nodes.addresses nodes'.addresses

variable {roster : BballRoster} {s : Store Node} {nodes front back : Nodes Player} {prev : Ptr}
  {player : Player}

/-! ## Loops that only read -/

/-- A chain of a roster is shorter than the bound of the store. -/
theorem BballRoster.Holds.length_lt (h : roster.Holds s nodes) : nodes.length < s.limit + 1 :=
  Nat.lt_succ_of_le (h.linked.length_le_limit h.nodup)

/-- Counting ends with the number of nodes. -/
theorem countFrom_eq {fuel : Nat} (h : Segment s prev nodes none) (hfuel : nodes.length < fuel)
    (i : Nat) : BballRoster.countFrom s fuel (first none nodes) i = some (i + nodes.length) := by
  induction hfuel using Loops.walk_induction generalizing prev i with
  | nil fuel =>
      rfl
  | cons node nodes fuel _ ih =>
      obtain ⟨hcell, hrest⟩ := h
      simp only [first_cons, BballRoster.countFrom, hcell, Option.bind_eq_bind, Option.bind_some]
      rw [ih hrest (i + 1), List.length_cons]
      congr 1
      omega

/-- The number of players. -/
theorem howManyPlayers_eq (h : roster.Holds s nodes) :
    roster.howManyPlayers s = some nodes.length := by
  rw [BballRoster.howManyPlayers, h.head, countFrom_eq h.linked h.length_lt, Nat.zero_add]

/-- The search ends and finds a name exactly when it is there. -/
theorem findFrom_eq {fuel : Nat} (h : Segment s prev nodes none) (hfuel : nodes.length < fuel)
    (firstName lastName : StdString) :
    BballRoster.findFrom s firstName lastName fuel (first none nodes) =
      some (decide (∃ p ∈ nodes.values, p.IsNamed firstName lastName)) := by
  induction hfuel using Loops.walk_induction generalizing prev with
  | nil fuel =>
      simp [BballRoster.findFrom]
  | cons node nodes fuel _ ih =>
      obtain ⟨hcell, hrest⟩ := h
      simp only [first_cons, BballRoster.findFrom, hcell, Option.bind_eq_bind, Option.bind_some]
      by_cases hnamed : node.2.IsNamed firstName lastName
      · simp [hnamed]
      · rw [if_neg hnamed, ih hrest]
        simp [hnamed]

/-- A name is on the roster exactly when some player has it. -/
theorem playerOnRoster_eq (h : roster.Holds s nodes) (firstName lastName : StdString) :
    roster.playerOnRoster s firstName lastName =
      some (decide (∃ p ∈ nodes.values, p.IsNamed firstName lastName)) := by
  have hfind := findFrom_eq h.linked h.length_lt firstName lastName
  rw [BballRoster.playerOnRoster, h.head]
  split
  · next hnone =>
      cases nodes with
      | nil => simp
      | cons node nodes => cases hnone
  · exact hfind

/-! ## Insertion at the ends -/

/-- The writes of an insertion in front. -/
theorem linkFront_eq {n : Nat} (h : Segment s none nodes none)
    (hhead : roster.head = first none nodes)
    (hnew : s.cell? n = some ⟨player, none, none⟩) (hn : n ∉ nodes.addresses)
    (hnodup : nodes.addresses.Nodup) :
    ∃ s', roster.linkFront s n = some s' ∧ Segment s' none ((n, player) :: nodes) none ∧
      ∀ a, a ≠ n → a ∉ nodes.addresses → s'.cell? a = s.cell? a := by
  cases nodes with
  | nil =>
      refine ⟨_, by simp [BballRoster.linkFront, Store.modify, hnew, hhead]; rfl, ?_, ?_⟩
      · simp
      · intro a ha _
        simp [ha]
  | cons node nodes =>
      obtain ⟨hcell, hrest⟩ := h
      rw [addresses_cons, List.mem_cons, not_or] at hn
      rw [addresses_cons, List.nodup_cons] at hnodup
      refine ⟨_, by
        simp [BballRoster.linkFront, Store.modify, hnew, hhead, hcell, Ne.symm hn.1]; rfl, ?_, ?_⟩
      · refine ⟨by simp [hn.1], Segment.relink_first ⟨hcell, hrest⟩ (by simp) ?_⟩
        intro a ha
        have hnode : a ≠ node.1 := fun heq => hnodup.1 (heq ▸ ha)
        have hnew : a ≠ n := fun heq => hn.2 (heq ▸ ha)
        simp [hnode, hnew]
      · intro a ha hmem
        rw [addresses_cons, List.mem_cons, not_or] at hmem
        simp [ha, hmem.1]

/-- The first and the last node of a roster with players. -/
theorem BballRoster.Holds.ends (h : roster.Holds s nodes) (hne : nodes ≠ []) :
    ∃ f rest init t, nodes = f :: rest ∧ nodes = init ++ [t] ∧ roster.head = some f.1 ∧
      roster.tail = some t.1 ∧ s.cell? f.1 = some ⟨f.2, first none rest, none⟩ ∧
      s.cell? t.1 = some ⟨t.2, none, last none init⟩ := by
  obtain ⟨f, rest, hfront⟩ := List.exists_cons_of_ne_nil hne
  obtain ⟨init, t, hrear⟩ := (List.eq_nil_or_concat' nodes).resolve_left hne
  have hhead := h.head
  have htail := h.tail hne
  have hlinked := h.linked
  refine ⟨f, rest, init, t, hfront, hrear, ?_, ?_, ?_, ?_⟩
  · rw [hhead, hfront, first_cons]
  · rw [htail, hrear, last_concat]
  · rw [hfront] at hlinked
    exact hlinked.1
  · rw [hrear] at hlinked
    exact (segment_append.1 hlinked).2.1

/-- A fresh address is not on the chain, and a new cell there leaves the chain. -/
theorem BballRoster.Holds.of_new (h : roster.Holds s nodes) (node : Node) :
    s.fresh ∉ nodes.addresses ∧ Segment (s.new node) none nodes none := by
  have hn : s.fresh ∉ nodes.addresses := fun hmem => h.linked.allocated _ hmem s.cell?_fresh
  refine ⟨hn, h.linked.frame fun a ha => ?_⟩
  have hne : a ≠ s.fresh := fun heq => hn (heq ▸ ha)
  rw [Store.cell?_new, if_neg hne]

/-- An insertion in front. -/
theorem insertPlayerToFront_eq (h : roster.Holds s nodes) (player : Player) :
    ∃ result, roster.insertPlayerToFront s player = some result ∧
      Becomes s nodes result (player :: nodes.values) := by
  obtain ⟨hn, hold⟩ := h.of_new ⟨player, none, none⟩
  obtain ⟨s', hs', hlinked, hkept⟩ :=
    linkFront_eq hold h.head (by rw [Store.cell?_new, if_pos rfl]) hn h.nodup
  have hnodup : Nodes.addresses ((s.fresh, player) :: nodes) |>.Nodup :=
    List.nodup_cons.2 ⟨hn, h.nodup⟩
  have hcount : BballRoster.howManyPlayers { roster with head := some s.fresh } s' =
      some (nodes.length + 1) := by
    have hlength := hlinked.length_le_limit hnodup
    have hcount := countFrom_eq hlinked (Nat.lt_succ_of_le hlength) 0
    rwa [Nat.zero_add] at hcount
  refine ⟨_, by simp only [BballRoster.insertPlayerToFront, hs', hcount, Option.bind_eq_bind,
    Option.bind_some]; rfl, (s.fresh, player) :: nodes, ⟨?_, hlinked, ?_, hnodup⟩, rfl,
    .of_new hkept ?_⟩
  · dsimp only
    split <;> rfl
  · intro _
    dsimp only
    cases nodes with
    | nil => rfl
    | cons node nodes =>
        rw [if_neg (by simp), h.tail (List.cons_ne_nil _ _)]
        rfl
  · intro a ha
    exact List.mem_cons.1 ha

/-- The writes of an insertion behind the last node. -/
theorem linkRear_eq {n : Nat} {node : Nat × Player}
    (h : Segment s none (nodes ++ [node]) none)
    (hnew : s.cell? n = some ⟨player, none, none⟩) (hn : n ∉ (nodes ++ [node]).addresses)
    (hnodup : (nodes ++ [node]).addresses.Nodup) :
    ∃ s', BballRoster.linkRear s n (some node.1) = some s' ∧
      Segment s' none (nodes ++ [node] ++ [(n, player)]) none ∧
      ∀ a, a ≠ n → a ∉ (nodes ++ [node]).addresses → s'.cell? a = s.cell? a := by
  obtain ⟨-, hcell, -⟩ := segment_append.1 h
  rw [addresses_append, List.mem_append, not_or] at hn
  obtain ⟨hnodes, hnode⟩ := hn
  have hne : n ≠ node.1 := by simpa using hnode
  rw [addresses_append, List.nodup_append] at hnodup
  refine ⟨_, by
    simp [BballRoster.linkRear, Store.modify, hnew, hcell, hne]; rfl, ?_, ?_⟩
  · refine segment_append.2 ⟨h.relink_last (by simp [hne.symm]) fun a ha => ?_, ?_⟩
    · have hanode : a ≠ node.1 := hnodup.2.2 a ha node.1 (by simp)
      have hanew : a ≠ n := fun heq => hnodes (heq ▸ ha)
      simp [hanode, hanew]
    · simp
  · intro a ha hmem
    have hanode : a ≠ node.1 := fun heq => hmem (by simp [heq])
    simp [ha, hanode]

/-- An insertion behind the last node. -/
theorem insertPlayerToRear_eq (h : roster.Holds s nodes) (player : Player) :
    ∃ result, roster.insertPlayerToRear s player = some result ∧
      Becomes s nodes result (nodes.values ++ [player]) := by
  rcases List.eq_nil_or_concat' nodes with rfl | ⟨front, node, rfl⟩
  · have hhead : roster.head = none := h.head
    rw [BballRoster.insertPlayerToRear, if_pos hhead]
    exact insertPlayerToFront_eq h player
  · obtain ⟨hn, hold⟩ := h.of_new ⟨player, none, none⟩
    obtain ⟨s', hs', hlinked, hkept⟩ :=
      linkRear_eq hold (by rw [Store.cell?_new, if_pos rfl]) hn h.nodup
    have htail : roster.tail = some node.1 := by
      rw [h.tail (by simp), last_concat]
    have hhead : roster.head ≠ none := by
      rw [h.head]
      cases front <;> simp
    have hnodup : Nodes.addresses (front ++ [node] ++ [(s.fresh, player)]) |>.Nodup := by
      rw [addresses_append, List.nodup_append]
      refine ⟨h.nodup, by simp, fun a ha b hb heq => ?_⟩
      obtain rfl : b = s.fresh := by simpa using hb
      exact hn (heq ▸ ha)
    refine ⟨_, by simp only [BballRoster.insertPlayerToRear, if_neg hhead, htail, hs',
      Option.bind_eq_bind, Option.bind_some]; rfl, front ++ [node] ++ [(s.fresh, player)],
      ⟨?_, hlinked, fun _ => by rw [last_concat], hnodup⟩, by simp, .of_new hkept ?_⟩
    · rw [h.head, first_append, first_append]
      cases front <;> rfl
    · intro a ha
      rw [addresses_append, List.mem_append] at ha
      exact ha.symm.imp_left fun hnew => by simpa using hnew

/-! ## Insertion between two nodes -/

/-- The cells of a store in which a new node stands between `x` and `y`. -/
def Inserted (s s' : Store Node) (player : Player) (n : Nat) (front : Nodes Player)
    (x y : Nat × Player) (back : Nodes Player) : Prop :=
  ∀ a, s'.cell? a = if a = n then some ⟨player, some y.1, some x.1⟩
    else if a = x.1 then some ⟨x.2, some n, last none front⟩
    else if a = y.1 then some ⟨y.2, first none back, some n⟩
    else s.cell? a

/-- What a new node between `x` and `y` makes of a chain. -/
theorem splice_new {s' : Store Node} {n : Nat} {x y : Nat × Player}
    (h : Segment s none (front ++ [x] ++ y :: back) none)
    (hn : n ∉ Nodes.addresses (front ++ [x] ++ y :: back))
    (hnodup : Nodes.addresses (front ++ [x] ++ y :: back) |>.Nodup)
    (hcells : Inserted s s' player n front x y back) :
    Segment s' none (front ++ [x] ++ (n, player) :: y :: back) none ∧
      ∀ a, a ≠ n → a ∉ Nodes.addresses (front ++ [x] ++ y :: back) → s'.cell? a = s.cell? a := by
  obtain ⟨hleft, hright⟩ := segment_append.1 h
  obtain ⟨-, hx, -⟩ := segment_append.1 hleft
  rw [last_concat] at hright
  obtain ⟨hxy, hfront, hback⟩ := distinct_ends [] hnodup
  simp only [addresses_append, addresses_cons, addresses_nil, List.mem_append, List.mem_cons,
    List.not_mem_nil, or_false, not_or] at hn
  obtain ⟨⟨hnfront, hnx⟩, hny, hnback⟩ := hn
  constructor
  · refine h.splice [] [(n, player)] ?_ ?_ (fun a ha => ?_) (fun a ha => ?_) ?_
    · rw [hcells, if_neg (Ne.symm hnx), if_pos rfl, hx]
      rfl
    · rw [hcells, if_neg (Ne.symm hny), if_neg (Ne.symm hxy), if_pos rfl, hright.1]
      rfl
    · have hne : a ≠ n := fun heq => hnfront (heq ▸ ha)
      rw [hcells, if_neg hne, if_neg (hfront a ha).1, if_neg (hfront a ha).2]
    · have hne : a ≠ n := fun heq => hnback (heq ▸ ha)
      rw [hcells, if_neg hne, if_neg (hback a ha).1, if_neg (hback a ha).2]
    · exact ⟨by rw [hcells, if_pos rfl]; rfl, trivial⟩
  · intro a ha hmem
    simp only [addresses_append, addresses_cons, addresses_nil, List.mem_append, List.mem_cons,
      List.not_mem_nil, or_false, not_or] at hmem
    rw [hcells, if_neg ha, if_neg hmem.1.2, if_neg hmem.2.1]

/-- The two neighbours of the place between `x` and `y`. -/
theorem cells_between {x y : Nat × Player} (h : Segment s none (front ++ [x] ++ y :: back) none) :
    s.cell? x.1 = some ⟨x.2, some y.1, last none front⟩ ∧
      s.cell? y.1 = some ⟨y.2, first none back, some x.1⟩ := by
  obtain ⟨hleft, hright⟩ := segment_append.1 h
  rw [last_concat] at hright
  exact ⟨(segment_append.1 hleft).2.1, hright.1⟩

/-- The writes of an insertion ahead of a node that is not the first one. -/
theorem linkAhead_eq {n : Nat} {x y : Nat × Player}
    (h : Segment s none (front ++ [x] ++ y :: back) none)
    (hnew : s.cell? n = some ⟨player, none, none⟩) (hnx : n ≠ x.1) (hny : n ≠ y.1)
    (hxy : x.1 ≠ y.1) :
    ∃ s', BballRoster.linkAhead s n (some y.1) = some s' ∧
      Inserted s s' player n front x y back := by
  obtain ⟨hx, hy⟩ := cells_between h
  refine ⟨_, by
    simp [BballRoster.linkAhead, Store.modify, hnew, hx, hy, hnx.symm, hny, hny.symm, hxy]
    rfl, fun a => ?_⟩
  by_cases ha : a = n <;> by_cases hax : a = x.1 <;> by_cases hay : a = y.1 <;>
    simp_all

/-- The writes of an insertion behind a node that is not the last one. -/
theorem linkBehind_eq {n : Nat} {x y : Nat × Player}
    (h : Segment s none (front ++ [x] ++ y :: back) none)
    (hnew : s.cell? n = some ⟨player, none, none⟩) (hnx : n ≠ x.1) (hny : n ≠ y.1)
    (hxy : x.1 ≠ y.1) :
    ∃ s', BballRoster.linkBehind s n (some x.1) = some s' ∧
      Inserted s s' player n front x y back := by
  obtain ⟨hx, hy⟩ := cells_between h
  refine ⟨_, by
    simp [BballRoster.linkBehind, Store.modify, hnew, hx, hy, hnx, hnx.symm, hny.symm, hxy.symm]
    rfl, fun a => ?_⟩
  by_cases ha : a = n <;> by_cases hax : a = x.1 <;> by_cases hay : a = y.1 <;>
    simp_all

/-- A roster with a new node between `x` and `y`. -/
theorem becomes_between {s' : Store Node} {x y : Nat × Player}
    (h : roster.Holds s (front ++ [x] ++ y :: back))
    (hcells : Inserted (s.new ⟨player, none, none⟩) s' player s.fresh front x y back) :
    Becomes s (front ++ [x] ++ y :: back) (roster, s')
      (Nodes.values (front ++ [x]) ++ player :: Nodes.values (y :: back)) := by
  obtain ⟨hn, hold⟩ := h.of_new ⟨player, none, none⟩
  obtain ⟨hlinked, hkept⟩ := splice_new hold hn h.nodup hcells
  refine ⟨front ++ [x] ++ (s.fresh, player) :: y :: back, ⟨?_, hlinked, fun _ => ?_, ?_⟩, ?_,
    .of_new hkept ?_⟩
  · rw [h.head]
    simp
  · rw [h.tail (by simp)]
    simp
  · have hnodup := h.nodup
    have hperm : Nodes.addresses (front ++ [x] ++ (s.fresh, player) :: y :: back) |>.Perm
        (s.fresh :: Nodes.addresses (front ++ [x] ++ y :: back)) := by
      rw [addresses_append, addresses_append _ (y :: back), addresses_cons]
      exact List.perm_middle
    exact hperm.nodup_iff.2 (List.nodup_cons.2 ⟨hn, hnodup⟩)
  · simp
  · intro a ha
    rw [addresses_append, addresses_cons, List.mem_append, List.mem_cons] at ha
    rw [addresses_append, List.mem_append]
    tauto

/-- What both writers of a new node need to know about its address. -/
theorem BballRoster.Holds.fresh_between {x y : Nat × Player} (player : Player)
    (h : roster.Holds s (front ++ [x] ++ y :: back)) :
    (s.new ⟨player, none, none⟩).cell? s.fresh = some ⟨player, none, none⟩ ∧
      Segment (s.new ⟨player, none, none⟩) none (front ++ [x] ++ y :: back) none ∧
      s.fresh ≠ x.1 ∧ s.fresh ≠ y.1 ∧ x.1 ≠ y.1 := by
  obtain ⟨hn, hold⟩ := h.of_new ⟨player, none, none⟩
  simp only [addresses_append, addresses_cons, addresses_nil, List.mem_append, List.mem_cons,
    List.not_mem_nil, or_false, not_or] at hn
  exact ⟨by rw [Store.cell?_new, if_pos rfl], hold, hn.1.2, hn.2.1, (distinct_ends [] h.nodup).1⟩

/-- A new player is linked ahead of `y`. -/
theorem linkAhead_becomes {x y : Nat × Player} (player : Player)
    (h : roster.Holds s (front ++ [x] ++ y :: back)) :
    ∃ s', BballRoster.linkAhead (s.new ⟨player, none, none⟩) s.fresh (some y.1) = some s' ∧
      Becomes s (front ++ [x] ++ y :: back) (roster, s')
        (Nodes.values (front ++ [x]) ++ player :: Nodes.values (y :: back)) := by
  obtain ⟨hnew, hold, hnx, hny, hxy⟩ := h.fresh_between player
  obtain ⟨s', hs', hcells⟩ := linkAhead_eq hold hnew hnx hny hxy
  exact ⟨s', hs', becomes_between h hcells⟩

/-- A new player is linked behind `x`. -/
theorem linkBehind_becomes {x y : Nat × Player} (player : Player)
    (h : roster.Holds s (front ++ [x] ++ y :: back)) :
    ∃ s', BballRoster.linkBehind (s.new ⟨player, none, none⟩) s.fresh (some x.1) = some s' ∧
      Becomes s (front ++ [x] ++ y :: back) (roster, s')
        (Nodes.values (front ++ [x]) ++ player :: Nodes.values (y :: back)) := by
  obtain ⟨hnew, hold, hnx, hny, hxy⟩ := h.fresh_between player
  obtain ⟨s', hs', hcells⟩ := linkBehind_eq hold hnew hnx hny hxy
  exact ⟨s', hs', becomes_between h hcells⟩

/-- The inner loop stops at the first player who does not come before in the same last name. -/
theorem skipFirstNames_eq {rest : Nodes Player} {y : Nat × Player} {fuel : Nat}
    (h : Segment s prev (rest ++ y :: back) none) (hfuel : rest.length < fuel)
    (hrest : ∀ p ∈ rest.values,
      p.lastName = player.lastName ∧ p.firstName < player.firstName)
    (hy : ¬ (y.2.lastName = player.lastName ∧ y.2.firstName < player.firstName)) :
    BballRoster.skipFirstNames s player fuel (first none (rest ++ y :: back)) none =
      some (some y.1, none) := by
  induction hfuel using Loops.walk_induction generalizing prev with
  | nil fuel =>
      simp [BballRoster.skipFirstNames, h.1, hy]
  | cons node rest fuel _ ih =>
      obtain ⟨hnode, hrest⟩ := List.forall_mem_cons.1 hrest
      rw [List.cons_append, segment_cons] at h
      obtain ⟨hcell, hsegment⟩ := h
      have hnext : first none (rest ++ y :: back) ≠ none := by
        cases rest <;> simp
      simp only [List.cons_append, first_cons, BballRoster.skipFirstNames, hcell,
        Option.bind_eq_bind, Option.bind_some, if_pos hnode, if_neg hnext]
      exact ih hsegment hrest

/-- The branch for a player whose last name is on the roster. -/
theorem insertByFirstName_eq (rest : Nodes Player) {x y : Nat × Player} {fuel : Nat}
    (h : roster.Holds s (front ++ [x] ++ y :: back))
    (hsegment : Segment s prev (rest ++ y :: back) none) (hfuel : rest.length < fuel)
    (hrest : ∀ p ∈ rest.values,
      p.lastName = player.lastName ∧ p.firstName < player.firstName)
    (hy : ¬ (y.2.lastName = player.lastName ∧ y.2.firstName < player.firstName)) :
    ∃ result, roster.insertByFirstName s player fuel (first none (rest ++ y :: back)) =
        some (true, result) ∧
      Becomes s (front ++ [x] ++ y :: back) result
        (Nodes.values (front ++ [x]) ++ player :: Nodes.values (y :: back)) := by
  obtain ⟨s', hs', hbecomes⟩ := linkAhead_becomes player h
  have hy := (cells_between (h.of_new ⟨player, none, none⟩).2).2
  refine ⟨(roster, s'), ?_, hbecomes⟩
  simp only [BballRoster.insertByFirstName, skipFirstNames_eq hsegment hfuel hrest ‹_›,
    Option.bind_eq_bind, Option.bind_some, reduceCtorEq, if_false, Store.load_some, hy, ite_self,
    hs']

/-- The nodes from one with the player's last name on, up to the player's place, have that last
name and smaller first names. -/
theorem same_lastName {node : Nat × Player} {rest : Nodes Player}
    (hsorted : (Nodes.values (node :: rest)).Pairwise Player.Before)
    (hbefore : ∀ p ∈ Nodes.values (node :: rest), p.Before player)
    (hsame : node.2.lastName = player.lastName) :
    ∀ p ∈ Nodes.values (node :: rest),
      p.lastName = player.lastName ∧ p.firstName < player.firstName := by
  obtain ⟨hnode, hrest⟩ := List.forall_mem_cons.1 hbefore
  obtain ⟨hfirst, -⟩ := List.pairwise_cons.1 hsorted
  refine List.forall_mem_cons.2 ⟨⟨hsame, hnode.firstName_lt hsame⟩, fun p hp => ?_⟩
  -- the last name of `p` lies between that of the node and that of the player
  have hlast : p.lastName = player.lastName :=
    le_antisymm (hrest p hp).lastName_le (hsame ▸ (hfirst p hp).lastName_le)
  exact ⟨hlast, (hrest p hp).firstName_lt hlast⟩

/-- The loop that looks for a place comes to the one between `x` and `y`, by induction on the
nodes `rest` between the traversing pointer and `y`. -/
theorem placeFrom_eq (rest done : Nodes Player) {x y : Nat × Player} {fuel : Nat}
    (h : roster.Holds s (front ++ [x] ++ y :: back)) (hdone : done ++ rest = front ++ [x])
    (hsorted : rest.values.Pairwise Player.Before)
    (hrest : ∀ p ∈ rest.values, p.Before player) (hy : player.Before y.2)
    (hempty : rest = [] → y.2.lastName = player.lastName) (hfuel : rest.length < fuel) :
    ∃ result, roster.placeFrom s player fuel (first none (rest ++ y :: back)) =
        some (true, result) ∧
      Becomes s (front ++ [x] ++ y :: back) result
        (Nodes.values (front ++ [x]) ++ player :: Nodes.values (y :: back)) := by
  have hnot : ¬ (y.2.lastName = player.lastName ∧ y.2.firstName < player.firstName) := by
    intro ⟨hlast, hfirst⟩
    exact hy.not_before (.inr ⟨hlast, hfirst⟩)
  induction hfuel using Loops.walk_induction generalizing done with
  | nil fuel =>
      have hlast := hempty rfl
      have hsegment := (segment_append.1 h.linked).2
      have hcell := hsegment.1
      rw [List.nil_append, first_cons, BballRoster.placeFrom, hcell]
      simp only [Option.bind_eq_bind, Option.bind_some, hlast, if_true]
      exact insertByFirstName_eq [] h hsegment (by simp) (by simp) hnot
  | cons node rest fuel _ ih =>
      obtain ⟨hnode, htail⟩ := List.forall_mem_cons.1 hrest
      obtain ⟨hbefore, hsorted⟩ := List.pairwise_cons.1 hsorted
      have hsegment : Segment s (last none done) (node :: rest ++ y :: back) none := by
        have hlinked := h.linked
        rw [← hdone, List.append_assoc] at hlinked
        exact (segment_append.1 hlinked).2
      have hcell : s.cell? node.1 =
          some ⟨node.2, first none (rest ++ y :: back), last none done⟩ := hsegment.1
      rw [List.cons_append, first_cons, BballRoster.placeFrom, hcell]
      simp only [Option.bind_eq_bind, Option.bind_some]
      by_cases hsame : node.2.lastName = player.lastName
      · rw [if_pos hsame]
        have hall := same_lastName (List.pairwise_cons.2 ⟨hbefore, hsorted⟩) hrest hsame
        have hlength : (node :: rest).length < s.limit + 1 := by
          have hdone := congrArg List.length hdone
          have hnodes := h.length_lt
          simp only [List.length_append, List.length_cons] at hdone hnodes ⊢
          omega
        exact insertByFirstName_eq (node :: rest) h hsegment hlength hall hnot
      · have hlt : node.2.lastName < player.lastName := hnode.lastName_le.lt_of_ne hsame
        have hdone' : done ++ [node] ++ rest = front ++ [x] := by simpa using hdone
        rw [if_neg hsame, if_pos hlt]
        cases rest with
        | nil =>
            -- the node is `x`, and the loop looks ahead at `y`
            obtain ⟨rfl, hx⟩ := List.append_inj' hdone rfl
            obtain rfl := List.singleton_inj.1 hx
            have hycell : s.cell? y.1 = some ⟨y.2, first none back, some node.1⟩ := hsegment.2.1
            simp only [List.nil_append, first_cons, Store.load_some, hycell, Option.bind_some]
            by_cases hlast : player.lastName < y.2.lastName
            · obtain ⟨s', hs', hbecomes⟩ := linkBehind_becomes player h
              refine ⟨(roster, s'), ?_, hbecomes⟩
              simp only [if_pos hlast, hs', Option.bind_some]
            · -- `y` has the player's last name: the next round finds it
              rw [if_neg hlast]
              have hylast := le_antisymm (not_lt.1 hlast) hy.lastName_le
              exact ih _ hdone' .nil (by simp) fun _ => hylast
        | cons r rest =>
            have hrcell : s.cell? r.1 =
                some ⟨r.2, first none (rest ++ y :: back), some node.1⟩ := hsegment.2.1
            have hr : ¬ player.lastName < r.2.lastName :=
              not_lt.2 (htail r.2 List.mem_cons_self).lastName_le
            simp only [List.cons_append, first_cons, Store.load_some, hrcell, Option.bind_some,
              if_neg hr]
            exact ih _ hdone' hsorted htail fun hnil => by cases hnil

/-- The search for the name at the start of `signPlayer` and in `renouncePlayer`. -/
theorem find_eq (h : roster.Holds s nodes) (firstName lastName : StdString) :
    BballRoster.findFrom s firstName lastName (s.limit + 1) roster.head =
      some (decide (∃ p ∈ nodes.values, p.IsNamed firstName lastName)) := by
  rw [h.head]
  exact findFrom_eq h.linked h.length_lt firstName lastName

/-- Signing a player whose name is on the roster changes nothing. -/
theorem signPlayer_present (h : roster.Holds s nodes)
    (hhas : ∃ p ∈ nodes.values, p.IsNamed player.firstName player.lastName) :
    roster.signPlayer s player = some (false, roster, s) := by
  have hhead : roster.head ≠ none := by
    rw [h.head]
    cases nodes with
    | nil => simp at hhas
    | cons node nodes => simp
  rw [BballRoster.signPlayer, if_neg hhead, find_eq h]
  simp only [Option.bind_eq_bind, Option.bind_some, hhas, decide_true, if_true]

/-- The three places in which `signPlayer` puts a player whose name is not on the roster. -/
theorem signPlayer_places {f t : Nat × Player} {rest init : Nodes Player}
    (h : roster.Holds s nodes) (hf : nodes = f :: rest) (ht : nodes = init ++ [t])
    (hhas : ¬ ∃ p ∈ nodes.values, p.IsNamed player.firstName player.lastName) :
    roster.signPlayer s player =
      if player.Before f.2 then
        (roster.insertPlayerToFront s player).bind fun result => some (true, result)
      else if t.2.Before player then
        (roster.insertPlayerToRear s player).bind fun result => some (true, result)
      else roster.placeFrom s player (s.limit + 1) roster.head := by
  have hfind := find_eq h player.firstName player.lastName
  rw [decide_eq_false hhas] at hfind
  obtain ⟨f', rest', init', t', hf', ht', hhead, htail, hfcell, htcell⟩ :=
    h.ends (hf ▸ List.cons_ne_nil f rest)
  obtain ⟨rfl, -⟩ := List.cons.inj (hf.symm.trans hf')
  obtain rfl := List.singleton_inj.1 (List.append_inj' (ht.symm.trans ht') rfl).2
  rw [hhead] at hfind
  simp only [BballRoster.signPlayer, hhead, reduceCtorEq, if_false, hfind, Option.bind_eq_bind,
    Option.bind_some, Bool.false_eq_true, htail, Store.load_some, hfcell, htcell]

/-- Signing a player between two others. -/
theorem signPlayer_between {x y : Nat × Player} (h : roster.Holds s (front ++ [x] ++ y :: back))
    (hsorted : (Nodes.values (front ++ [x] ++ y :: back)).Pairwise Player.Before)
    (hbefore : ∀ p ∈ Nodes.values (front ++ [x]), p.Before player)
    (hafter : ∀ p ∈ Nodes.values (y :: back), player.Before p)
    (hhas : ¬ ∃ p ∈ Nodes.values (front ++ [x] ++ y :: back),
      p.IsNamed player.firstName player.lastName) :
    ∃ result, roster.signPlayer s player = some (true, result) ∧
      Becomes s (front ++ [x] ++ y :: back) result
        (Nodes.values (front ++ [x]) ++ player :: Nodes.values (y :: back)) := by
  obtain ⟨f, rest, hf⟩ := List.exists_cons_of_ne_nil (show front ++ [x] ≠ [] by simp)
  obtain ⟨init, t, ht⟩ := (List.eq_nil_or_concat' (y :: back)).resolve_left (List.cons_ne_nil _ _)
  have hfirst : ¬ player.Before f.2 :=
    (hbefore f.2 (by rw [hf]; exact List.mem_cons_self)).not_before
  have hrear : ¬ t.2.Before player := by
    refine (hafter t.2 ?_).not_before
    rw [ht]
    exact List.mem_map_of_mem (List.mem_append_right _ List.mem_cons_self)
  rw [signPlayer_places h (by rw [hf]; rfl) (by rw [ht, ← List.append_assoc]) hhas,
    if_neg hfirst, if_neg hrear, h.head]
  have hfuel : (front ++ [x]).length < s.limit + 1 := by
    have hnodes := h.length_lt
    simp only [List.length_append, List.length_cons] at hnodes ⊢
    omega
  rw [values_append] at hsorted
  exact placeFrom_eq _ [] h rfl (List.pairwise_append.1 hsorted).1 hbefore
    (hafter y.2 List.mem_cons_self) (fun hnil => by simp at hnil) hfuel

/-- Signing any other player puts the player in order. -/
theorem signPlayer_absent {before after : List Player} (h : roster.Holds s nodes)
    (hsplit : nodes.values = before ++ after) (hsorted : nodes.values.Pairwise Player.Before)
    (hbefore : ∀ p ∈ before, p.Before player) (hafter : ∀ p ∈ after, player.Before p) :
    ∃ result, roster.signPlayer s player = some (true, result) ∧
      Becomes s nodes result (before ++ player :: after) := by
  have hhas : ¬ ∃ p ∈ nodes.values, p.IsNamed player.firstName player.lastName := by
    intro ⟨p, hp, hnamed⟩
    rw [hsplit, List.mem_append] at hp
    rcases hp with hp | hp
    · exact (hbefore p hp).not_named hnamed
    · exact (hafter p hp).not_named ⟨hnamed.1.symm, hnamed.2.symm⟩
  obtain ⟨front, back, rfl, rfl, rfl⟩ := List.map_eq_append_iff.1 hsplit
  by_cases hempty : front ++ back = []
  · obtain ⟨rfl, rfl⟩ := List.append_eq_nil_iff.1 hempty
    have hhead : roster.head = none := h.head
    obtain ⟨result, hresult, hbecomes⟩ := insertPlayerToFront_eq h player
    refine ⟨result, ?_, hbecomes⟩
    simp only [BballRoster.signPlayer, if_pos hhead, hresult, Option.bind_eq_bind, Option.bind_some]
  · obtain ⟨f, rest, init, t, hf, ht, -⟩ := h.ends hempty
    -- the place is in front of the first node, behind the last one, or between two nodes
    cases front with
    | nil =>
        have hplayer : player.Before f.2 := hafter f.2 (by simp_all)
        obtain ⟨result, hresult, hbecomes⟩ := insertPlayerToFront_eq h player
        refine ⟨result, ?_, hbecomes⟩
        rw [signPlayer_places h hf ht hhas, if_pos hplayer, hresult]
        rfl
    | cons node front =>
        rcases back with - | ⟨y, back⟩
        · have hnode : node = f := (List.cons.inj hf).1
          have hfirst : ¬ player.Before f.2 :=
            hnode ▸ (hbefore node.2 List.mem_cons_self).not_before
          have hlast : node :: front = init ++ [t] := (List.append_nil _).symm.trans ht
          have hrear : t.2.Before player :=
            hbefore t.2 (List.mem_map_of_mem (hlast ▸ List.mem_append_right _ List.mem_cons_self))
          obtain ⟨result, hresult, hbecomes⟩ := insertPlayerToRear_eq h player
          refine ⟨result, ?_, by simpa [Nodes.values] using hbecomes⟩
          rw [signPlayer_places h hf ht hhas, if_neg hfirst, if_pos hrear, hresult]
          rfl
        · obtain ⟨front', x, hx⟩ :=
            (List.eq_nil_or_concat' (node :: front)).resolve_left (List.cons_ne_nil _ _)
          rw [hx] at h hsorted hbefore hhas ⊢
          exact signPlayer_between h hsorted hbefore hafter hhas

/-- `signPlayer` is `Sheet.sign`. -/
theorem signPlayer_sheet {sheet : Sheet} (h : roster.Holds s nodes)
    (hvalues : nodes.values = sheet.players) (player : Player) :
    ∃ result, roster.signPlayer s player = some ((sheet.sign player).1, result) ∧
      Becomes s nodes result (sheet.sign player).2.players := by
  by_cases hhas : sheet.Has player.firstName player.lastName
  · rw [Sheet.sign, if_pos hhas]
    refine ⟨(roster, s), ?_, nodes, h, hvalues, .refl _ _⟩
    exact signPlayer_present h (by rw [hvalues]; exact hhas)
  · obtain ⟨front, back, hsplit, hfront, hback⟩ := Sheet.exists_split hhas
    rw [Sheet.sign, if_neg hhas, Sheet.players_place hsplit hfront hback]
    exact signPlayer_absent h (hvalues.trans hsplit) (hvalues ▸ sheet.sorted) hfront hback

end Coursework.Roster
