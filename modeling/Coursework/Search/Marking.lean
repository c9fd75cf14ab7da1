import Mathlib.Data.Set.Card
import Mathlib.Logic.Relation

/-!
# Depth-first searches that mark what they visit

A search starts at a vertex `v`, takes it out of the set of open vertices and descends into the
neighbours that are still open, one after another. Vertices that a failed descent took out stay
out for the descents after it. `Marks`, `Tries` and `Exhausts` relate the open vertices before and
after such a search.
-/

namespace Coursework.Search

variable {V : Type} (adj : V → V → Prop)

/-- A walk from `a` to `b` whose vertices after the first are open. -/
def Reaches (opened : Set V) (a b : V) : Prop :=
  Relation.ReflTransGen (fun x y => adj x y ∧ y ∈ opened) a b

/-- A search from `v` takes `v` and only reachable vertices out of the open ones. -/
structure Marks (v : V) (before after : Set V) : Prop where
  subset : after ⊆ before
  start : v ∉ after
  reached : ∀ a ∈ before, a ∉ after → Reaches adj before v a

/-- A search from `v` that has tried some neighbours and did not meet the goal. -/
structure Tries (goal v : V) (tried : V → Prop) (before after : Set V) : Prop
    extends Marks adj v before after where
  closed : ∀ a ∈ before, a ∉ after → a ≠ v → ∀ b, adj a b → b ∉ after
  neighbours : ∀ b, tried b → b ∉ after
  missed : goal ≠ v ∧ (goal ∈ before → goal ∈ after)

/-- A search from `v` that left nothing to try and did not meet the goal. -/
structure Exhausts (goal v : V) (before after : Set V) : Prop
    extends Marks adj v before after where
  closed : ∀ a, a = v ∨ a ∈ before → a ∉ after → ∀ b, adj a b → b ∉ after
  missed : goal ≠ v ∧ (goal ∈ before → goal ∈ after)

variable {adj} {goal v b : V} {tried : V → Prop} {before mid after : Set V}

/-- More open vertices leave more walks. -/
theorem Reaches.mono {opened opened' : Set V} (h : opened ⊆ opened') {a b : V}
    (hwalk : Reaches adj opened a b) : Reaches adj opened' a b := by
  induction hwalk with
  | refl => exact Relation.ReflTransGen.refl
  | tail _ hstep ih => exact Relation.ReflTransGen.tail ih ⟨hstep.1, h hstep.2⟩

/-- A walk ends where it started or at an open vertex. -/
theorem Reaches.eq_or_mem {opened : Set V} {a b : V} (hwalk : Reaches adj opened a b) :
    b = a ∨ b ∈ opened := by
  induction hwalk with
  | refl => exact .inl rfl
  | tail _ hstep _ => exact .inr hstep.2

/-- A walk can be cut so that it does not come back to where it started. -/
theorem Reaches.avoid {opened : Set V} {a b : V} (hwalk : Reaches adj opened a b) :
    Reaches adj (opened \ {a}) a b := by
  induction hwalk with
  | refl => exact Relation.ReflTransGen.refl
  | @tail c d _ hstep ih =>
      by_cases hda : d = a
      · subst hda
        exact Relation.ReflTransGen.refl
      · exact Relation.ReflTransGen.tail ih ⟨hstep.1, hstep.2, hda⟩

/-- A walk stays where it starts, or its first step leads to an open vertex from which it goes on
without coming back there. -/
theorem Reaches.cases_first {opened : Set V} {a b : V} (hwalk : Reaches adj opened a b) :
    a = b ∨ ∃ c, adj a c ∧ c ∈ opened ∧ Reaches adj (opened \ {c}) c b := by
  rcases hwalk.cases_head with heq | ⟨c, hstep, hrest⟩
  · exact .inl heq
  · exact .inr ⟨c, hstep.1, hstep.2, Reaches.avoid hrest⟩

/-- The first mark is the start. -/
theorem Marks.mark (v : V) (before : Set V) : Marks adj v before (before \ {v}) where
  subset := Set.sdiff_subset
  start := fun h => h.2 rfl
  reached := by
    intro a ha hnot
    have heq : a = v := by
      by_contra hne
      exact hnot ⟨ha, hne⟩
    subst heq
    exact Relation.ReflTransGen.refl

/-- A descent into an open neighbour marks what can be reached through it. -/
theorem Marks.descend (h : Marks adj v before mid) (hadj : adj v b) (hb : b ∈ mid)
    (hnext : Marks adj b mid after) : Marks adj v before after where
  subset := hnext.subset.trans h.subset
  start := fun hv => h.start (hnext.subset hv)
  reached := by
    intro a ha hnot
    by_cases hmid : a ∈ mid
    · have hwalk := (hnext.reached a hmid hnot).mono h.subset
      exact Relation.ReflTransGen.head ⟨hadj, h.subset hb⟩ hwalk
    · exact h.reached a ha hmid

/-- Only the start is marked, and it is not the goal. -/
theorem Tries.mark (before : Set V) (hgoal : goal ≠ v) :
    Tries adj goal v (fun _ => False) before (before \ {v}) where
  toMarks := Marks.mark v before
  closed := by
    intro a ha hnot hne
    exact absurd ⟨ha, hne⟩ hnot
  neighbours := fun _ h => h.elim
  missed := ⟨hgoal, fun h => ⟨h, hgoal⟩⟩

/-- A neighbour that is not open needs no descent. -/
theorem Tries.skip (h : Tries adj goal v tried before after) (hb : b ∉ after) :
    Tries adj goal v (fun a => a = b ∨ tried a) before after where
  toMarks := h.toMarks
  closed := h.closed
  neighbours := by
    intro a ha
    rcases ha with heq | htried
    · exact heq ▸ hb
    · exact h.neighbours a htried
  missed := h.missed

/-- An exhausted neighbour counts as tried. -/
theorem Tries.descend (h : Tries adj goal v tried before mid) (hadj : adj v b) (hb : b ∈ mid)
    (hnext : Exhausts adj goal b mid after) :
    Tries adj goal v (fun a => a = b ∨ tried a) before after where
  toMarks := h.toMarks.descend hadj hb hnext.toMarks
  closed := by
    intro a ha hnot hne c hac
    by_cases hmid : a ∈ mid
    · exact hnext.closed a (.inr hmid) hnot c hac
    · exact fun hc => h.closed a ha hmid hne c hac (hnext.subset hc)
  neighbours := by
    intro a ha
    rcases ha with heq | htried
    · exact heq ▸ hnext.start
    · exact fun hc => h.neighbours a htried (hnext.subset hc)
  missed := ⟨h.missed.1, fun hgoal => hnext.missed.2 (h.missed.2 hgoal)⟩

/-- The search is exhausted once every neighbour was tried. -/
theorem Tries.exhausts (h : Tries adj goal v tried before after)
    (hall : ∀ b, adj v b → tried b) : Exhausts adj goal v before after where
  toMarks := h.toMarks
  closed := by
    intro a ha hnot b hadj
    by_cases hav : a = v
    · subst hav
      exact h.neighbours b (hall b hadj)
    · exact h.closed a (ha.resolve_left hav) hnot hav b hadj
  missed := h.missed

/-- An exhausted search has marked everything that can be reached. -/
theorem Exhausts.not_mem (h : Exhausts adj goal v before after) {a : V}
    (hwalk : Reaches adj before v a) : a ∉ after := by
  induction hwalk with
  | refl => exact h.start
  | tail hwalk hstep ih => exact h.closed _ (Reaches.eq_or_mem hwalk) ih _ hstep.1

/-- An exhausted search shows that the goal cannot be reached. -/
theorem Exhausts.not_reaches (h : Exhausts adj goal v before after) :
    ¬ Reaches adj before v goal := by
  intro hwalk
  have hmem := (Reaches.eq_or_mem hwalk).resolve_left h.missed.1
  exact h.not_mem hwalk (h.missed.2 hmem)

/-- A descent into an open neighbour has fewer vertices left. -/
theorem Marks.ncard_lt (h : Marks adj v before mid) (hfinite : before.Finite) (hb : b ∈ mid) :
    (mid \ {b}).ncard < (before \ {v}).ncard := by
  have hsub : mid ⊆ before \ {v} := fun a ha => ⟨h.subset ha, fun hav => h.start (hav ▸ ha)⟩
  have hlt := Set.ncard_sdiff_singleton_lt_of_mem hb (hfinite.subset h.subset)
  exact hlt.trans_le (Set.ncard_le_ncard hsub (hfinite.subset Set.sdiff_subset))

end Coursework.Search
