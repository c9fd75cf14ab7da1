import Mathlib.Data.List.Lex
import Mathlib.Order.Fin.Basic

/-!
# Roster sheets

What a roster is for: a finite map from full names to values, listed by last name and then by first
name. A `Sheet` carries the order of its players, so no full name is on it twice;
`Sheet.sign` and `Sheet.renounce` are the two changes of one entry.
-/

namespace Coursework.Roster

/-- `std::string`: its characters as unsigned bytes, which is how `<` compares them. -/
abbrev StdString := List (Fin 256)

/-- The data members of a node: the two names and the value. -/
structure Player where
  firstName : StdString
  lastName : StdString
  value : StdString
  deriving DecidableEq

/-- Roster order. -/
def Player.Before (p q : Player) : Prop :=
  p.lastName < q.lastName ∨ p.lastName = q.lastName ∧ p.firstName < q.firstName

/-- The player has this full name. -/
def Player.IsNamed (p : Player) (firstName lastName : StdString) : Prop :=
  p.firstName = firstName ∧ p.lastName = lastName

instance (p q : Player) : Decidable (p.Before q) :=
  inferInstanceAs (Decidable (_ ∨ _))

instance (p : Player) (firstName lastName : StdString) :
    Decidable (p.IsNamed firstName lastName) :=
  inferInstanceAs (Decidable (_ ∧ _))

namespace Player

variable {p q r : Player}

/-- Roster order is transitive. -/
theorem Before.trans (h : p.Before q) (h' : q.Before r) : p.Before r := by
  unfold Before at *
  rcases h with h | ⟨heq, h⟩ <;> rcases h' with h' | ⟨heq', h'⟩
  · exact .inl (h.trans h')
  · exact .inl (heq' ▸ h)
  · exact .inl (heq ▸ h')
  · exact .inr ⟨heq.trans heq', h.trans h'⟩

/-- Players of one name are not in order. -/
theorem Before.not_named (h : p.Before q) : ¬ p.IsNamed q.firstName q.lastName := by
  intro ⟨hfirst, hlast⟩
  rcases h with h | ⟨-, h⟩
  · exact absurd hlast h.ne
  · exact absurd hfirst h.ne

/-- Roster order is asymmetric. -/
theorem Before.not_before (h : p.Before q) : ¬ q.Before p :=
  fun h' => (h.trans h').not_named ⟨rfl, rfl⟩

/-- Last names do not decrease in roster order. -/
theorem Before.lastName_le (h : p.Before q) : p.lastName ≤ q.lastName := by
  rcases h with h | ⟨heq, -⟩
  · exact h.le
  · exact heq.le

/-- First names decide among players of one last name. -/
theorem Before.firstName_lt (h : p.Before q) (hlast : p.lastName = q.lastName) :
    p.firstName < q.firstName := by
  rcases h with h | ⟨-, h⟩
  · exact absurd hlast h.ne
  · exact h

/-- Two players are in order unless they have the same name. -/
theorem before_or_named_or_before (p q : Player) :
    p.Before q ∨ p.IsNamed q.firstName q.lastName ∨ q.Before p := by
  unfold Before IsNamed
  rcases lt_trichotomy p.lastName q.lastName with h | h | h
  · exact .inl (.inl h)
  · rcases lt_trichotomy p.firstName q.firstName with h' | h' | h'
    · exact .inl (.inr ⟨h, h'⟩)
    · exact .inr (.inl ⟨h', h⟩)
    · exact .inr (.inr (.inr ⟨h.symm, h'⟩))
  · exact .inr (.inr (.inl h))

end Player

/-- A roster in order. -/
structure Sheet where
  players : List Player
  sorted : players.Pairwise Player.Before

namespace Sheet

/-- The empty roster. -/
def empty : Sheet := ⟨[], .nil⟩

/-- The full name is on the sheet. -/
def Has (sheet : Sheet) (firstName lastName : StdString) : Prop :=
  ∃ p ∈ sheet.players, p.IsNamed firstName lastName

instance (sheet : Sheet) (firstName lastName : StdString) :
    Decidable (sheet.Has firstName lastName) :=
  inferInstanceAs (Decidable (∃ p ∈ sheet.players, _))

/-- A new player stands behind all players that come before and ahead of all others. -/
def place (sheet : Sheet) (player : Player) : Sheet where
  players := sheet.players.filter (·.Before player) ++
    player :: sheet.players.filter (player.Before ·)
  sorted := by
    simp only [List.pairwise_append, List.pairwise_cons, List.mem_cons, List.mem_filter,
      decide_eq_true_eq]
    refine ⟨sheet.sorted.filter _, ⟨fun q hq => hq.2, sheet.sorted.filter _⟩, ?_⟩
    rintro p ⟨-, hp⟩ q (rfl | ⟨-, hq⟩)
    · exact hp
    · exact hp.trans hq

/-- Sign a player whose full name is not on the sheet. -/
def sign (sheet : Sheet) (player : Player) : Bool × Sheet :=
  if sheet.Has player.firstName player.lastName then (false, sheet) else (true, sheet.place player)

/-- Take a full name off the sheet. -/
def renounce (sheet : Sheet) (firstName lastName : StdString) : Bool × Sheet :=
  (sheet.Has firstName lastName,
    ⟨sheet.players.filter fun p => ¬ p.IsNamed firstName lastName, sheet.sorted.filter _⟩)

/-- Give a full name a new value. -/
def resign (sheet : Sheet) (firstName lastName value : StdString) : Sheet where
  players := sheet.players.map fun p => if p.IsNamed firstName lastName then { p with value } else p
  sorted := by
    refine sheet.sorted.map _ fun p q h => ?_
    split <;> split <;> exact h

variable {sheet : Sheet}

/-- A sheet is its list of players. -/
theorem ext {other : Sheet} (h : sheet.players = other.players) : sheet = other := by
  cases sheet
  cases other
  cases h
  rfl

/-- The players before and behind a new player. -/
theorem exists_split {player : Player} (h : ¬ sheet.Has player.firstName player.lastName) :
    ∃ front back, sheet.players = front ++ back ∧ (∀ p ∈ front, p.Before player) ∧
      ∀ p ∈ back, player.Before p := by
  obtain ⟨players, hsorted⟩ := sheet
  have hother : ∀ p ∈ players, ¬ p.Before player → player.Before p := by
    intro p hp hnot
    rcases p.before_or_named_or_before player with hbefore | hnamed | hbefore
    · exact (hnot hbefore).elim
    · exact (h ⟨p, hp, hnamed⟩).elim
    · exact hbefore
  clear h
  induction players with
  | nil => exact ⟨[], [], rfl, by simp, by simp⟩
  | cons p players ih =>
      obtain ⟨hfirst, hrest⟩ := List.pairwise_cons.1 hsorted
      by_cases hp : p.Before player
      · obtain ⟨front, back, rfl, hfront, hback⟩ :=
          ih hrest fun q hq => hother q (List.mem_cons_of_mem _ hq)
        exact ⟨p :: front, back, rfl, List.forall_mem_cons.2 ⟨hp, hfront⟩, hback⟩
      · have hplayer := hother p List.mem_cons_self hp
        refine ⟨[], p :: players, rfl, by simp, List.forall_mem_cons.2 ⟨hplayer, ?_⟩⟩
        exact fun q hq => hplayer.trans (hfirst q hq)

/-- Signing puts the player between these. -/
theorem players_place {player : Player} {front back : List Player}
    (h : sheet.players = front ++ back) (hfront : ∀ p ∈ front, p.Before player)
    (hback : ∀ p ∈ back, player.Before p) :
    (sheet.place player).players = front ++ player :: back := by
  have hbefore : sheet.players.filter (·.Before player) = front := by
    rw [h, List.filter_append, List.filter_eq_self.2 (by simpa using hfront),
      List.filter_eq_nil_iff.2 (by simpa using fun p hp => (hback p hp).not_before),
      List.append_nil]
  have hbehind : sheet.players.filter (player.Before ·) = back := by
    rw [h, List.filter_append,
      List.filter_eq_nil_iff.2 (by simpa using fun p hp => (hfront p hp).not_before),
      List.filter_eq_self.2 (by simpa using hback), List.nil_append]
  show sheet.players.filter _ ++ player :: sheet.players.filter _ = _
  rw [hbefore, hbehind]

/-- Signing a player with a new name adds this player and nothing else. -/
theorem perm_place {player : Player} (h : ¬ sheet.Has player.firstName player.lastName) :
    (sheet.place player).players.Perm (player :: sheet.players) := by
  obtain ⟨front, back, hsplit, hfront, hback⟩ := exists_split h
  rw [players_place hsplit hfront hback, hsplit]
  exact List.perm_middle

/-- Renouncing a name that is not on the sheet changes nothing. -/
theorem renounce_of_not_has {firstName lastName : StdString} (h : ¬ sheet.Has firstName lastName) :
    sheet.renounce firstName lastName = (false, sheet) := by
  refine Prod.ext (by simp [renounce, h]) (ext ?_)
  rw [renounce, List.filter_eq_self]
  exact fun p hp => by simpa using fun hnamed => h ⟨p, hp, hnamed⟩

/-- No other player has the name of a player. -/
theorem not_named {firstName lastName : StdString} {player : Player} {front back : List Player}
    (h : sheet.players = front ++ player :: back) (hnamed : player.IsNamed firstName lastName) :
    (∀ q ∈ front, ¬ q.IsNamed firstName lastName) ∧ ∀ q ∈ back, ¬ q.IsNamed firstName lastName := by
  obtain ⟨rfl, rfl⟩ := hnamed
  have hsorted := sheet.sorted
  rw [h, List.pairwise_append, List.pairwise_cons] at hsorted
  obtain ⟨-, ⟨hback, -⟩, hfront⟩ := hsorted
  exact ⟨fun q hq => (hfront q hq player List.mem_cons_self).not_named,
    fun q hq hnamed => (hback q hq).not_named ⟨hnamed.1.symm, hnamed.2.symm⟩⟩

/-- Renouncing a name takes the one player off who has it. -/
theorem players_renounce {firstName lastName : StdString} {player : Player}
    {front back : List Player} (h : sheet.players = front ++ player :: back)
    (hnamed : player.IsNamed firstName lastName) :
    (sheet.renounce firstName lastName).1 = true ∧
      (sheet.renounce firstName lastName).2.players = front ++ back := by
  obtain ⟨hfront, hback⟩ := not_named h hnamed
  constructor
  · simp only [renounce, decide_eq_true_eq]
    exact ⟨player, h ▸ List.mem_append_right _ List.mem_cons_self, hnamed⟩
  · show sheet.players.filter _ = _
    rw [h, List.filter_append, List.filter_cons_of_neg (by simpa using hnamed),
      List.filter_eq_self.2 (by simpa using hfront), List.filter_eq_self.2 (by simpa using hback)]

/-- Resigning a name replaces the one player who has it. -/
theorem players_resign {firstName lastName value : StdString} {player : Player}
    {front back : List Player} (h : sheet.players = front ++ player :: back)
    (hnamed : player.IsNamed firstName lastName) :
    (sheet.resign firstName lastName value).players =
      front ++ { player with value } :: back := by
  obtain ⟨hfront, hback⟩ := not_named h hnamed
  have hkept : ∀ players : List Player, (∀ q ∈ players, ¬ q.IsNamed firstName lastName) →
      players.map (fun p => if p.IsNamed firstName lastName then { p with value } else p) =
        players := fun players hplayers =>
    (List.map_congr_left fun q hq => if_neg (hplayers q hq)).trans (List.map_id' players)
  show sheet.players.map _ = _
  rw [h, List.map_append, List.map_cons, if_pos hnamed, hkept front hfront, hkept back hback]

end Sheet

end Coursework.Roster
