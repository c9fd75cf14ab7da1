import Coursework.Words.Listing

/-!
# The word tree is a listing

A tree in the store represents a listing: it is a search tree whose values in order are the
entries (`WordTree.Represents`). `add` inserts into the search tree (`insert`), and every
tree that a sequence of words leads to represents the listing of that sequence.
Vocabulary and scope: `Coursework.Words.Program`, `Coursework.Words.Listing`.
-/

namespace Coursework.Words

open Heap Roster

/-! ## Search trees -/

/-- Every word on the left of a node comes before its word, and every word on the right after. -/
def Ordered : NodeTree Entry → Prop
  | .nil => True
  | .node node left right =>
      Ordered left ∧ Ordered right ∧ (∀ x ∈ (nodes left).values, x.data < node.2.data) ∧
        ∀ x ∈ (nodes right).values, node.2.data < x.data

/-- Count a word in a search tree; a new word gets a node at the address `a`. -/
def insert (a : Nat) (v : StdString) (count : Int) : NodeTree Entry → NodeTree Entry
  | .nil => .node (a, ⟨v, count⟩) .nil .nil
  | .node node left right =>
      if v = node.2.data then .node (node.1, node.2.increment) left right
      else if v < node.2.data then .node node (insert a v count left) right
      else .node node left (insert a v count right)

variable {a : Nat} {v : StdString} {count : Int} {shape : NodeTree Entry} {s : Store WordNode}

/-- In a search tree the words ascend in order. -/
theorem ordered_iff : Ordered shape ↔ (nodes shape).values.Pairwise Entry.Before := by
  induction shape with
  | nil => exact iff_of_true trivial List.Pairwise.nil
  | node node left right ihLeft ihRight =>
      rw [Ordered, ihLeft, ihRight, nodes_node, values_append, values_cons, List.pairwise_append,
        List.pairwise_cons]
      constructor
      · intro ⟨hleft, hright, hbelow, habove⟩
        refine ⟨hleft, ⟨habove, hright⟩, fun x hx y hy => ?_⟩
        rcases List.mem_cons.1 hy with rfl | hy
        · exact hbelow x hx
        · exact lt_trans (hbelow x hx) (habove y hy)
      · intro ⟨hleft, ⟨habove, hright⟩, hbelow⟩
        exact ⟨hleft, hright, fun x hx => hbelow x hx _ List.mem_cons_self, habove⟩

/-- Insertion counts the word in the listed entries. -/
theorem values_insert (h : Ordered shape) :
    (nodes (insert a v count shape)).values = addEntry v count (nodes shape).values := by
  induction shape with
  | nil => rfl
  | node node left right ihLeft ihRight =>
      obtain ⟨hleft, hright, hbelow, habove⟩ := h
      unfold insert
      by_cases heq : v = node.2.data
      · rw [if_pos heq, nodes_node, nodes_node, values_append, values_append, values_cons,
          values_cons, addEntry_append fun x hx => heq ▸ hbelow x hx, addEntry, if_pos heq]
      · rw [if_neg heq]
        by_cases hlt : v < node.2.data
        · rw [if_pos hlt, nodes_node, nodes_node, values_append, values_append, values_cons,
            ihLeft hleft, addEntry_append_cons hlt]
        · have hgt : node.2.data < v := lt_of_le_of_ne (not_lt.1 hlt) (Ne.symm heq)
          rw [if_neg hlt, nodes_node, nodes_node, values_append, values_append, values_cons,
            values_cons, ihRight hright, addEntry_append fun x hx => (hbelow x hx).trans hgt,
            addEntry, if_neg heq, if_neg hlt]

/-- Insertion keeps a search tree. -/
theorem ordered_insert (h : Ordered shape) : Ordered (insert a v count shape) := by
  rw [ordered_iff, values_insert h]
  exact ascending_addEntry (ordered_iff.1 h)

/-- Insertion uses the addresses of the tree and the new one. -/
theorem mem_addresses_insert {b : Nat} (h : b ∈ (nodes (insert a v count shape)).addresses) :
    b = a ∨ b ∈ (nodes shape).addresses := by
  induction shape with
  | nil => simpa [insert] using h
  | node node left right ihLeft ihRight =>
      unfold insert at h
      simp only [nodes_node, addresses_append, addresses_cons, List.mem_append, List.mem_cons]
      split at h
      · simp only [nodes_node, addresses_append, addresses_cons, List.mem_append,
          List.mem_cons] at h
        exact .inr h
      · split at h
        · simp only [nodes_node, addresses_append, addresses_cons, List.mem_append,
            List.mem_cons] at h
          rcases h with hleft | hnode
          · exact (ihLeft hleft).imp_right .inl
          · exact .inr (.inr hnode)
        · simp only [nodes_node, addresses_append, addresses_cons, List.mem_append,
            List.mem_cons] at h
          rcases h with hleft | rfl | hright
          · exact .inr (.inl hleft)
          · exact .inr (.inr (.inl rfl))
          · exact (ihRight hright).imp_right fun hmem => .inr (.inr hmem)

/-- Insertion at a new address keeps the nodes distinct. -/
theorem nodup_insert (h : (nodes shape).addresses.Nodup) (ha : a ∉ (nodes shape).addresses) :
    (nodes (insert a v count shape)).addresses.Nodup := by
  induction shape with
  | nil => simp [insert]
  | node node left right ihLeft ihRight =>
      obtain ⟨⟨hleft, hright⟩, ⟨hnodeLeft, hnodeRight⟩, hdisj⟩ := nodup_parts h
      simp only [nodes_node, addresses_append, addresses_cons, List.mem_append, List.mem_cons,
        not_or] at ha
      obtain ⟨haLeft, haNode, haRight⟩ := ha
      unfold insert
      split
      · simpa only [nodes_node, addresses_append, addresses_cons] using h
      · split
        · rw [nodes_node, addresses_append, addresses_cons, List.nodup_append, List.nodup_cons]
          refine ⟨ihLeft hleft haLeft, ⟨hnodeRight, hright⟩, fun b hb c hc hbc => ?_⟩
          subst hbc
          rcases mem_addresses_insert hb with rfl | hb
          · rcases List.mem_cons.1 hc with heq | hc
            · exact haNode heq
            · exact haRight hc
          · rcases List.mem_cons.1 hc with rfl | hc
            · exact hnodeLeft hb
            · exact hdisj b hb hc
        · rw [nodes_node, addresses_append, addresses_cons, List.nodup_append, List.nodup_cons]
          refine ⟨hleft, ⟨fun hmem => ?_, ihRight hright haRight⟩, fun b hb c hc hbc => ?_⟩
          · rcases mem_addresses_insert hmem with heq | hmem
            · exact haNode heq.symm
            · exact hnodeRight hmem
          · subst hbc
            rcases List.mem_cons.1 hc with rfl | hc
            · exact hnodeLeft hb
            · rcases mem_addresses_insert hc with rfl | hc
              · exact haLeft hb
              · exact hdisj b hb hc

/-- The top node stays where it is. -/
theorem top_insert (h : shape ≠ .nil) : top (insert a v count shape) = top shape := by
  cases shape with
  | nil => exact absurd rfl h
  | node node left right =>
      unfold insert
      split
      · rfl
      · split <;> rfl

/-! ## Adding a word -/

namespace WordTree

/-- The loop inserts into the tree below the pointer, by induction on that tree. -/
theorem addFrom_eq (v : StdString) (count : Int) {fuel : Nat} (hshape : shape ≠ .nil)
    (hlinked : LinkedTree s shape)
    (hnodup : (nodes shape).addresses.Nodup) (hfuel : (nodes shape).length ≤ fuel) :
    ∃ s', addFrom v count s fuel (top shape) = some s' ∧
      LinkedTree s' (insert s.fresh v count shape) ∧
      ∀ b, b ∉ (nodes shape).addresses → s.cell? b ≠ none → s'.cell? b = s.cell? b := by
  induction shape generalizing fuel with
  | nil => exact absurd rfl hshape
  | node node left right ihLeft ihRight =>
      obtain ⟨⟨hnodupLeft, hnodupRight⟩, ⟨hnodeLeft, hnodeRight⟩, hdisj⟩ := nodup_parts hnodup
      obtain ⟨hcell, hleft, hright⟩ := hlinked
      rw [nodes_node, List.length_append, List.length_cons] at hfuel
      obtain ⟨fuel, rfl⟩ := Nat.exists_eq_add_one_of_ne_zero (show fuel ≠ 0 by omega)
      have hfresh : node.1 ≠ s.fresh := by
        intro heq
        rw [heq, s.cell?_fresh] at hcell
        cases hcell
      have hmem : ∀ b, b ∉ (nodes (.node node left right)).addresses ↔
          b ∉ (nodes left).addresses ∧ b ≠ node.1 ∧ b ∉ (nodes right).addresses := by
        intro b
        simp only [nodes_node, addresses_append, addresses_cons, List.mem_append, List.mem_cons,
          not_or]
      rw [top_node, addFrom, hcell]
      simp only [Option.bind_eq_bind, Option.bind_some, insert]
      by_cases heq : v = node.2.data
      -- the word is counted in this node
      · rw [if_pos heq, if_pos heq, increment, Store.modify_eq hcell]
        refine ⟨_, rfl, ⟨by simp [Entry.increment], hleft.frame fun b hb => ?_,
          hright.frame fun b hb => ?_⟩, fun b hb _ => ?_⟩
        · have hne : b ≠ node.1 := fun h => hnodeLeft (h ▸ hb)
          rw [Store.cell?_set, if_neg hne]
        · have hne : b ≠ node.1 := fun h => hnodeRight (h ▸ hb)
          rw [Store.cell?_set, if_neg hne]
        · rw [Store.cell?_set, if_neg ((hmem b).1 hb).2.1]
      rw [if_neg heq, if_neg heq]
      have hcell' : ∀ entry : WordNode, (s.new entry).cell? node.1 =
          some ⟨node.2, top left, top right⟩ := fun entry => by
        rw [Store.cell?_new, if_neg hfresh, hcell]
      by_cases hlt : v < node.2.data
      -- to the left: a new node below this one, or the next round of the loop
      · rw [if_pos hlt, if_pos hlt]
        by_cases hnil : left = .nil
        · subst hnil
          rw [top_nil, if_pos rfl, Store.modify_eq (hcell' _)]
          refine ⟨_, rfl, ⟨by simp [insert], ⟨by simp [hfresh.symm], trivial, trivial⟩,
            hright.frame fun b hb => ?_⟩, fun b hb halloc => ?_⟩
          · exact cell?_set_new (fun h => hnodeRight (h ▸ hb)) (hright.allocated b hb)
          · exact cell?_set_new ((hmem b).1 hb).2.1 halloc
        · obtain ⟨s', hadd, hlinked', hkept⟩ := ihLeft hnil hleft hnodupLeft
            (show (nodes left).length ≤ fuel by omega)
          rw [if_neg fun h => hnil (top_eq_none.1 h)]
          refine ⟨s', hadd, ⟨?_, hlinked', hright.frame fun b hb => ?_⟩, fun b hb halloc => ?_⟩
          · rw [top_insert hnil, hkept _ hnodeLeft (hcell ▸ Option.some_ne_none _), hcell]
          · exact hkept b (fun hb' => hdisj b hb' hb) (hright.allocated b hb)
          · exact hkept b ((hmem b).1 hb).1 halloc
      -- to the right in the same way
      · have hgt : node.2.data < v := lt_of_le_of_ne (not_lt.1 hlt) (Ne.symm heq)
        rw [if_neg hlt, if_neg hlt, if_pos hgt]
        by_cases hnil : right = .nil
        · subst hnil
          rw [top_nil, if_pos rfl, Store.modify_eq (hcell' _)]
          refine ⟨_, rfl, ⟨by simp [insert], hleft.frame fun b hb => ?_,
            ⟨by simp [hfresh.symm], trivial, trivial⟩⟩, fun b hb halloc => ?_⟩
          · exact cell?_set_new (fun h => hnodeLeft (h ▸ hb)) (hleft.allocated b hb)
          · exact cell?_set_new ((hmem b).1 hb).2.1 halloc
        · obtain ⟨s', hadd, hlinked', hkept⟩ := ihRight hnil hright hnodupRight
            (show (nodes right).length ≤ fuel by omega)
          rw [if_neg fun h => hnil (top_eq_none.1 h)]
          refine ⟨s', hadd, ⟨?_, hleft.frame fun b hb => ?_, hlinked'⟩, fun b hb halloc => ?_⟩
          · rw [top_insert hnil, hkept _ hnodeRight (hcell ▸ Option.some_ne_none _), hcell]
          · exact hkept b (fun hb' => hdisj b hb hb') (hleft.allocated b hb)
          · exact hkept b ((hmem b).1 hb).2.2 halloc

/-- A tree in the store is a search tree that lists these entries. -/
structure Represents (tree : WordTree) (s : Store WordNode) (shape : NodeTree Entry)
    (listing : Listing) : Prop where
  root : tree.root = top shape
  linked : LinkedTree s shape
  distinct : (nodes shape).addresses.Nodup
  ordered : Ordered shape
  listed : (nodes shape).values = listing.entries

variable {tree : WordTree} {listing : Listing}

/-- A new tree lists nothing. -/
theorem new_represents (s : Store WordNode) : new.Represents s .nil Listing.empty where
  root := rfl
  linked := trivial
  distinct := List.nodup_nil
  ordered := trivial
  listed := rfl

/-- The tree of a word that was added. -/
theorem Represents.insert {tree' : WordTree} {s' : Store WordNode}
    (h : tree.Represents s shape listing) (hroot : tree'.root = top (insert s.fresh v count shape))
    (hlinked : LinkedTree s' (Words.insert s.fresh v count shape)) :
    tree'.Represents s' (Words.insert s.fresh v count shape) (listing.add v count) where
  root := hroot
  linked := hlinked
  distinct := nodup_insert h.distinct fun hmem => h.linked.allocated _ hmem s.cell?_fresh
  ordered := ordered_insert h.ordered
  listed := by
    rw [values_insert h.ordered, h.listed]
    rfl

/-- `add` counts the word, ends, and changes only cells of its tree and new cells. -/
theorem Represents.add (h : tree.Represents s shape listing) (v : StdString) (count : Int) :
    ∃ tree' s' shape', tree.add s v count = some (tree', s') ∧
      tree'.Represents s' shape' (listing.add v count) ∧
      Confined s s' (nodes shape).addresses (nodes shape').addresses := by
  have hfresh : ∀ b ∈ (nodes (Words.insert s.fresh v count shape)).addresses,
      b ∈ (nodes shape).addresses ∨ s.cell? b = none := by
    intro b hb
    rcases mem_addresses_insert hb with rfl | hmem
    · exact .inr s.cell?_fresh
    · exact .inl hmem
  unfold WordTree.add
  cases shape with
  | nil =>
      rw [h.root, top_nil]
      refine ⟨_, _, _, rfl, h.insert rfl ⟨by simp, trivial, trivial⟩,
        fun b _ halloc => ?_, hfresh⟩
      have hne : b ≠ s.fresh := fun heq => halloc (heq ▸ s.cell?_fresh)
      rw [Store.cell?_new, if_neg hne]
  | node node left right =>
      obtain ⟨s', hadd, hlinked, hkept⟩ := addFrom_eq v count
        (show BinaryTree.node node left right ≠ .nil by simp) h.linked h.distinct
        (Nat.le_succ_of_le (h.linked.length_le_limit h.distinct))
      have hcell := h.linked.1
      have htop : top (.node node left right) = top (Words.insert s.fresh v count
        (.node node left right)) := (top_insert (by simp)).symm
      rw [top_node] at hadd
      rw [h.root, top_node]
      simp only [hcell, Option.bind_eq_bind, Option.bind_some]
      by_cases heq : node.2.data = v
      · -- the root is tested ahead of the loop, which would have done the same
        rw [addFrom, hcell] at hadd
        simp only [Option.bind_eq_bind, Option.bind_some, if_pos heq.symm] at hadd
        rw [if_pos heq, hadd]
        exact ⟨_, _, _, rfl, h.insert (h.root.trans htop) hlinked, hkept, hfresh⟩
      · rw [if_neg heq, hadd]
        exact ⟨_, _, _, rfl, h.insert (h.root.trans htop) hlinked, hkept, hfresh⟩

/-- A sequence of words is counted. -/
theorem Represents.addWords (h : tree.Represents s shape listing) (words : List StdString) :
    ∃ tree' s' shape', tree.addWords s words = some (tree', s') ∧
      tree'.Represents s' shape' (listing.addAll words) := by
  induction words generalizing tree s shape listing with
  | nil => exact ⟨tree, s, shape, rfl, h⟩
  | cons v words ih =>
      obtain ⟨tree', s', shape', hadd, h', -⟩ := h.add v 1
      obtain ⟨tree'', s'', shape'', hwords, h''⟩ := ih h'
      refine ⟨tree'', s'', shape'', ?_, h''⟩
      rw [WordTree.addWords, addOne, hadd]
      exact hwords

/-! ## The traversals -/

/-- A traversal of a tree that only reads it goes through the listed entries. -/
theorem Represents.inOrder_eq {σ : Type} (h : tree.Represents s shape listing)
    (visit : σ → Entry → Option σ) (state : σ) :
    inOrder (fun _ => s) visit (s.limit + 1) tree.root state =
      listing.entries.foldlM visit state := by
  rw [h.root, ← h.listed]
  exact Heap.inOrder_eq (fun _ => True) (fun _ _ _ _ _ => trivial) (fun _ _ => h.linked)
    (Nat.lt_succ_of_le (h.linked.length_le_limit h.distinct)) trivial

/-- What the visits of `distinctWordsAux` add up to. -/
theorem foldlM_countDistinct {entries : List Entry} (n : Int)
    (hcount : ∀ e ∈ entries, e.count ≠ 0) :
    entries.foldlM countDistinct n = some (n + entries.length) := by
  induction entries generalizing n with
  | nil => simp
  | cons e entries ih =>
      obtain ⟨hfirst, hrest⟩ := List.forall_mem_cons.1 hcount
      rw [List.foldlM_cons, countDistinct, if_neg hfirst, Int.tdiv_self hfirst,
        Option.bind_eq_bind, Option.bind_some, ih _ hrest, List.length_cons]
      congr 1
      omega

/-- What the visits of `totalWordsAux` add up to. -/
theorem foldlM_countTotal (entries : List Entry) (n : Int) :
    entries.foldlM countTotal n = some (n + (entries.map Entry.count).sum) := by
  induction entries generalizing n with
  | nil => simp
  | cons e entries ih =>
      rw [List.foldlM_cons, countTotal, Option.bind_eq_bind, Option.bind_some, ih, List.map_cons,
        List.sum_cons, Int.add_assoc]

/-- What the visits of `printInOrder` print. -/
theorem foldlM_printNode (entries : List Entry) (out : StdString) :
    entries.foldlM printNode out = some (out ++ entries.flatMap line) := by
  induction entries generalizing out with
  | nil => simp
  | cons e entries ih =>
      rw [List.foldlM_cons, printNode, Option.bind_eq_bind, Option.bind_some, ih,
        List.flatMap_cons, List.append_assoc]

/-- The number of words, if no count is zero. -/
theorem Represents.distinctWords (h : tree.Represents s shape listing)
    (hcount : ∀ e ∈ listing.entries, e.count ≠ 0) :
    tree.distinctWords s = some (listing.entries.length : Int) := by
  rw [WordTree.distinctWords, h.inOrder_eq, foldlM_countDistinct _ hcount, Int.zero_add]

/-- The sum of the counts. -/
theorem Represents.totalWords (h : tree.Represents s shape listing) :
    tree.totalWords s = some (listing.entries.map Entry.count).sum := by
  rw [WordTree.totalWords, h.inOrder_eq, foldlM_countTotal, Int.zero_add]

/-- The printed lines. -/
theorem Represents.print (h : tree.Represents s shape listing) (out : StdString) :
    tree.print out s = some (out ++ listing.entries.flatMap line) := by
  rw [WordTree.print, h.inOrder_eq, foldlM_printNode]

/-- After any sequence of words there is a search tree with one node for each word; it prints the
words in ascending order with the number of times each was added, and counts them. -/
theorem addWords_correct (s : Store WordNode) (words : List StdString) :
    ∃ tree s' shape listed, new.addWords s words = some (tree, s') ∧
      (tree.root = top shape ∧ LinkedTree s' shape ∧ (nodes shape).addresses.Nodup) ∧
      (Ordered shape ∧ (nodes shape).values.map Entry.data = listed) ∧
      (listed.Pairwise (· < ·) ∧ ∀ w, w ∈ listed ↔ w ∈ words) ∧
      (∀ out, tree.print out s' =
        some (out ++ listed.flatMap fun w => line ⟨w, words.count w⟩)) ∧
      tree.distinctWords s' = some (words.dedup.length : Int) ∧
      tree.totalWords s' = some (words.length : Int) := by
  obtain ⟨tree, s', shape, hrun, h⟩ := (new_represents s).addWords words
  have hmem : ∀ w, w ∈ (Listing.empty.addAll words).words ↔ w ∈ words := by
    intro w
    rw [Listing.mem_words_addAll]
    exact or_iff_left List.not_mem_nil
  have hcount : ∀ e ∈ (Listing.empty.addAll words).entries, e.count ≠ 0 := by
    intro e he
    rw [Listing.entries_addAll] at he
    obtain ⟨w, hw, rfl⟩ := List.mem_map.1 he
    have hpos := List.count_pos_iff.2 ((hmem w).1 hw)
    show (words.count w : Int) ≠ 0
    omega
  refine ⟨tree, s', shape, (Listing.empty.addAll words).words, hrun, ⟨h.root, h.linked, h.distinct⟩,
    ⟨h.ordered, by rw [h.listed, Listing.words]⟩, ⟨Listing.words_ascending _, hmem⟩,
    fun out => ?_, ?_, ?_⟩
  · rw [h.print, Listing.entries_addAll, List.flatMap_map]
  · rw [h.distinctWords hcount, Listing.length_addAll]
  · rw [h.totalWords, Listing.sum_addAll]

end WordTree

end Coursework.Words
