import Coursework.Words.Correctness

/-!
# Word trees that are copied and assigned

A copy adds the entries of a listing in order to an empty tree, so each one is new there and keeps
its count (`Represents.foldlM_addNode`). `World.Holds` says that the trees of a program are disjoint
and that no count is below one; every operation keeps it (`World.Reached.exists_holds`).
The assignment frees the old nodes ahead of the copy, and it copies from the same tree if it
is assigned to itself (`World.assigns_iff`).
Vocabulary and scope: `Coursework.Words.Program`.
-/

namespace Coursework.Words

open Heap Roster

variable {v : StdString} {shape : NodeTree Entry} {s s' : Store WordNode}

/-! ## Listings -/

/-- An entry that comes after all others is put behind them. -/
theorem addEntry_last {e : Entry} {entries : List Entry} (h : ∀ x ∈ entries, x.Before e) :
    addEntry e.data e.count entries = entries ++ [e] := by
  have happend : addEntry e.data e.count (entries ++ []) = entries ++ [e] := addEntry_append h
  rwa [List.append_nil] at happend

/-- Counts of one and more stay so when a word is counted. -/
theorem count_pos_addEntry {entries : List Entry} (h : ∀ e ∈ entries, 0 < e.count) :
    ∀ e ∈ addEntry v 1 entries, 0 < e.count := by
  induction entries with
  | nil => simp [addEntry]
  | cons x entries ih =>
      obtain ⟨hfirst, hrest⟩ := List.forall_mem_cons.1 h
      unfold addEntry
      split
      · refine List.forall_mem_cons.2 ⟨?_, hrest⟩
        show 0 < x.count + 1
        omega
      · split
        · exact List.forall_mem_cons.2 ⟨Int.zero_lt_one, h⟩
        · exact List.forall_mem_cons.2 ⟨hfirst, ih hrest⟩

namespace WordTree

variable {tree : WordTree} {listing : Listing}

/-! ## The copy -/

/-- The visits of `printInOrder` list the entries. -/
theorem foldlM_listing (entries front : List Entry) :
    entries.foldlM (fun listed entry => some (listed ++ [entry])) front =
      some (front ++ entries) := by
  induction entries generalizing front with
  | nil => simp
  | cons e entries ih =>
      rw [List.foldlM_cons]
      show entries.foldlM (fun listed entry => some (listed ++ [entry])) (front ++ [e]) = _
      rw [ih, List.append_assoc, List.singleton_append]

/-- The words and counts of a tree. -/
theorem Represents.listing_eq (h : tree.Represents s shape listing) :
    tree.listing s = some listing.entries := by
  rw [WordTree.listing, h.inOrder_eq, foldlM_listing, List.nil_append]

/-- A tree that is not touched is kept. -/
theorem Represents.frame {old new : List Nat} (h : tree.Represents s shape listing)
    (hstep : Confined s s' old new) (hdisj : ∀ a ∈ (nodes shape).addresses, a ∉ old) :
    tree.Represents s' shape listing ∧ ∀ a ∈ (nodes shape).addresses, a ∉ new := by
  obtain ⟨hcells, hnew⟩ := hstep.disjoint h.linked.allocated hdisj
  exact ⟨{ h with linked := h.linked.frame hcells }, hnew⟩

/-- Entries that come in order after those of a tree are added to it as they are. -/
theorem Represents.foldlM_addNode (entries : List Entry) (h : tree.Represents s shape listing)
    (hascending : (listing.entries ++ entries).Pairwise Entry.Before) :
    ∃ tree' s' shape' listing', entries.foldlM addNode (tree, s) = some (tree', s') ∧
      tree'.Represents s' shape' listing' ∧ listing'.entries = listing.entries ++ entries ∧
      Confined s s' (nodes shape).addresses (nodes shape').addresses := by
  induction entries generalizing tree s shape listing with
  | nil => exact ⟨tree, s, shape, listing, rfl, h, by simp, .refl s _⟩
  | cons e entries ih =>
      obtain ⟨tree₁, s₁, shape₁, hadd, h₁, hconfined⟩ := h.add e.data e.count
      have hbefore : ∀ x ∈ listing.entries, x.Before e := fun x hx =>
        (List.pairwise_append.1 hascending).2.2 x hx e List.mem_cons_self
      have hentries : (listing.add e.data e.count).entries = listing.entries ++ [e] :=
        addEntry_last hbefore
      have hsplit : listing.entries ++ e :: entries =
          (listing.add e.data e.count).entries ++ entries := by
        rw [hentries, List.append_assoc, List.singleton_append]
      rw [hsplit] at hascending ⊢
      obtain ⟨tree', s', shape', listing', hrun, h', hentries', hconfined'⟩ := ih h₁ hascending
      refine ⟨tree', s', shape', listing', ?_, h', hentries', hconfined.trans hconfined'⟩
      rw [List.foldlM_cons]
      show (tree.add s e.data e.count).bind (entries.foldlM addNode) = _
      rw [hadd]
      exact hrun

/-- The traversal of `copyAux` keeps the tree that it copies from, so it adds its entries to
an empty tree. -/
theorem copyAux_eq (h : tree.Represents s shape listing) :
    ∃ tree' s' shape', copyAux tree.root new s = some (tree', s') ∧
      tree'.Represents s' shape' listing ∧ Confined s s' [] (nodes shape').addresses := by
  -- the state in between: a tree beside the one that is copied
  let kept : WordTree × Store WordNode → Prop := fun state =>
    tree.Represents state.2 shape listing ∧ ∃ shape' listing',
      state.1.Represents state.2 shape' listing' ∧
        ∀ a ∈ (nodes shape).addresses, a ∉ (nodes shape').addresses
  have hkept : ∀ state entry state', kept state → addNode state entry = some state' →
      kept state' := by
    intro state entry state' hstate hadd
    obtain ⟨hsrc, shape', listing', hdest, hdisj⟩ := hstate
    obtain ⟨tree₁, s₁, shape₁, heq, h₁, hconfined⟩ := hdest.add entry.data entry.count
    obtain rfl : (tree₁, s₁) = state' := Option.some.inj (heq.symm.trans hadd)
    obtain ⟨hsrc₁, hdisj₁⟩ := hsrc.frame hconfined hdisj
    exact ⟨hsrc₁, shape₁, _, h₁, hdisj₁⟩
  have hstart : kept (new, s) :=
    ⟨h, .nil, Listing.empty, new_represents s, fun _ _ => List.not_mem_nil⟩
  have htraversal : inOrder Prod.snd addNode (s.limit + 1) (top shape) (new, s) =
      (nodes shape).values.foldlM addNode (new, s) := inOrder_eq kept hkept
    (fun state hstate => hstate.1.linked)
    (Nat.lt_succ_of_le (h.linked.length_le_limit h.distinct)) hstart
  obtain ⟨tree', s', shape', listing', hrun, h', hentries, hconfined⟩ :=
    (new_represents s).foldlM_addNode listing.entries listing.ascending
  rw [← h.root, h.listed, hrun] at htraversal
  have hlisting : listing' = listing := by
    cases listing'
    cases listing
    cases hentries
    rfl
  exact ⟨tree', s', shape', htraversal, hlisting ▸ h', hconfined⟩

/-- The copy constructor builds a tree of new nodes with the same listing. -/
theorem Represents.copy (h : tree.Represents s shape listing) :
    ∃ tree' s' shape', tree.copy s = some (tree', s') ∧
      tree'.Represents s' shape' listing ∧ Confined s s' [] (nodes shape').addresses := by
  unfold WordTree.copy
  split
  · next hnull =>
    obtain rfl : shape = .nil := top_eq_none.1 (h.root.symm.trans hnull)
    have hentries : listing.entries = [] := h.listed.symm
    have hlisting : Listing.empty = listing := by
      cases listing
      cases hentries
      rfl
    exact ⟨new, s, .nil, rfl, hlisting ▸ new_represents s, .refl s _⟩
  · exact copyAux_eq h

/-! ## The destructor -/

/-- `destructorAux` frees every node of a tree once, and it reads a node only ahead of that. -/
theorem destructorAux_eq {fuel : Nat} (h : LinkedTree s shape)
    (hnodup : (nodes shape).addresses.Nodup) (hfuel : (nodes shape).length < fuel) :
    ∃ freed s', destructorAux fuel (top shape) s = some (freed, s') ∧
      freed.Perm (nodes shape).addresses ∧ Confined s s' (nodes shape).addresses [] := by
  induction shape generalizing s fuel with
  | nil =>
      obtain ⟨fuel, rfl⟩ := Nat.exists_eq_add_one_of_ne_zero (Nat.ne_zero_of_lt hfuel)
      exact ⟨[], s, rfl, .nil, .refl s _⟩
  | node node left right ihLeft ihRight =>
      obtain ⟨fuel, rfl⟩ := Nat.exists_eq_add_one_of_ne_zero (Nat.ne_zero_of_lt hfuel)
      obtain ⟨⟨hnodupLeft, hnodupRight⟩, ⟨hnodeLeft, hnodeRight⟩, hdisj⟩ := nodup_parts hnodup
      obtain ⟨hcell, hleft, hright⟩ := h
      rw [nodes_node, List.length_append, List.length_cons] at hfuel
      obtain ⟨freedLeft, s₁, hrun₁, hperm₁, hconfined₁⟩ :=
        ihLeft hleft hnodupLeft (show (nodes left).length < fuel by omega)
      have hcell₁ : s₁.cell? node.1 = some ⟨node.2, top left, top right⟩ := by
        rw [hconfined₁.kept _ hnodeLeft (hcell ▸ Option.some_ne_none _), hcell]
      have hright₁ := hright.frame fun a ha =>
        hconfined₁.kept a (fun hmem => hdisj a hmem ha) (hright.allocated a ha)
      obtain ⟨freedRight, s₂, hrun₂, hperm₂, hconfined₂⟩ :=
        ihRight hright₁ hnodupRight (show (nodes right).length < fuel by omega)
      have hcell₂ : s₂.cell? node.1 = some ⟨node.2, top left, top right⟩ := by
        rw [hconfined₂.kept _ hnodeRight (hcell₁ ▸ Option.some_ne_none _), hcell₁]
      refine ⟨freedLeft ++ freedRight ++ [node.1], s₂.erase node.1, ?_, ?_, ?_⟩
      · rw [top_node, destructorAux, hcell]
        simp only [Option.bind_eq_bind, Option.bind_some, hrun₁, hcell₁, hrun₂,
          Store.delete_eq hcell₂]
      · rw [nodes_node, addresses_append, addresses_cons, List.append_assoc]
        exact hperm₁.append ((List.perm_append_singleton _ _).trans (hperm₂.cons _))
      · refine ⟨fun a ha halloc => ?_, fun _ ha => absurd ha List.not_mem_nil⟩
        rw [nodes_node, addresses_append, addresses_cons, List.mem_append, List.mem_cons, not_or,
          not_or] at ha
        obtain ⟨haLeft, haNode, haRight⟩ := ha
        have hkept₁ := hconfined₁.kept a haLeft halloc
        rw [Store.cell?_erase, if_neg haNode,
          hconfined₂.kept a haRight (hkept₁ ▸ halloc), hkept₁]

end WordTree

/-! ## Programs -/

/-- The trees are disjoint and list these words, each counted at least once. -/
structure World.Holds {ι : Type} (w : World ι) (shapes : ι → NodeTree Entry)
    (listings : ι → Listing) : Prop where
  represents : ∀ i, (w.trees i).Represents w.store (shapes i) (listings i)
  disjoint : ∀ {i j}, i ≠ j →
    ∀ a ∈ (nodes (shapes i)).addresses, a ∉ (nodes (shapes j)).addresses
  positive : ∀ i, ∀ e ∈ (listings i).entries, 0 < e.count

namespace World

variable {ι : Type} {w w' : World ι} {shapes : ι → NodeTree Entry} {listings : ι → Listing}
  {i j : ι}

/-- The words of a tree. -/
theorem Holds.listing (h : w.Holds shapes listings) (i : ι) :
    w.listing i = some (listings i).entries :=
  (h.represents i).listing_eq

/-- The number of words of a tree. -/
theorem Holds.distinctWords (h : w.Holds shapes listings) (i : ι) :
    w.distinctWords i = some ((listings i).entries.length : Int) :=
  (h.represents i).distinctWords fun e he => (h.positive i e he).ne'

variable [DecidableEq ι]

/-- One tree gets other nodes, and cells of no tree may be changed with it. -/
theorem Holds.put (h : w.Holds shapes listings) (result : WordTree × Store WordNode)
    {shape : NodeTree Entry} {listing : Listing} {old : List Nat}
    (hrepresents : result.1.Represents result.2 shape listing)
    (hconfined : Confined w.store result.2 old (nodes shape).addresses)
    (hold : ∀ j, j ≠ i → ∀ a ∈ (nodes (shapes j)).addresses, a ∉ old)
    (hpositive : ∀ e ∈ listing.entries, 0 < e.count) :
    (w.put i result).Holds (Function.update shapes i shape)
      (Function.update listings i listing) where
  represents := by
    intro k
    by_cases hki : k = i
    · subst hki
      simpa [World.put] using hrepresents
    · have hframe := ((h.represents k).frame hconfined (hold k hki)).1
      simpa [World.put, hki] using hframe
  disjoint := separate_update (f := fun shape => (nodes shape).addresses) h.disjoint
    fun k hki => ((h.represents k).frame hconfined (hold k hki)).2
  positive := by
    intro k
    by_cases hki : k = i
    · subst hki
      rwa [Function.update_self]
    · rw [Function.update_of_ne hki]
      exact h.positive k

/-- `add` counts a word in one tree. -/
theorem Holds.add (h : w.Holds shapes listings) (i : ι) (v : StdString) :
    ∃ w' shape, w.add i v = some w' ∧
      w'.Holds (Function.update shapes i shape)
        (Function.update listings i ((listings i).add v 1)) := by
  obtain ⟨tree', s', shape, hadd, hrepresents, hconfined⟩ := (h.represents i).add v 1
  refine ⟨w.put i (tree', s'), shape, ?_, h.put (tree', s') hrepresents hconfined
    (fun j hj => h.disjoint hj) (count_pos_addEntry (h.positive i))⟩
  rw [World.add, WordTree.addOne, hadd]
  rfl

/-- The copy constructor leaves two trees with one listing, and it changes no cell. -/
theorem Holds.copy (h : w.Holds shapes listings) (i j : ι) :
    ∃ w' shape, w.copy i j = some w' ∧
      w'.Holds (Function.update shapes i shape) (Function.update listings i (listings j)) ∧
      ∀ a, w.store.cell? a ≠ none → w'.store.cell? a = w.store.cell? a := by
  obtain ⟨tree', s', shape, hcopy, hrepresents, hconfined⟩ := (h.represents j).copy
  refine ⟨w.put i (tree', s'), shape, ?_, h.put (tree', s') hrepresents hconfined
    (fun _ _ _ _ => List.not_mem_nil) (h.positive j), fun a halloc =>
    hconfined.kept a List.not_mem_nil halloc⟩
  rw [World.copy, hcopy]
  rfl

/-- The destructor frees the nodes of its tree and leaves an empty one. -/
theorem Holds.destroy (h : w.Holds shapes listings) (i : ι) :
    ∃ freed s', WordTree.destructorAux (w.store.limit + 1) (w.trees i).root w.store =
        some (freed, s') ∧
      freed.Perm (nodes (shapes i)).addresses ∧
      (w.put i (.new, s')).Holds (Function.update shapes i .nil)
        (Function.update listings i .empty) := by
  have htree := h.represents i
  obtain ⟨freed, s', hrun, hperm, hconfined⟩ := WordTree.destructorAux_eq htree.linked
    htree.distinct (Nat.lt_succ_of_le (htree.linked.length_le_limit htree.distinct))
  rw [← htree.root] at hrun
  exact ⟨freed, s', hrun, hperm, h.put (.new, s') (WordTree.new_represents s') hconfined
    (fun j hj => h.disjoint hj) fun _ he => absurd he List.not_mem_nil⟩

/-- `operator=` frees the nodes of the left-hand side, and it copies what the right-hand side
then lists. -/
theorem Holds.assign (h : w.Holds shapes listings) (i j : ι) :
    ∃ freed w' shape, w.assign i j = some (freed, w') ∧
      freed.Perm (nodes (shapes i)).addresses ∧
      w'.Holds (Function.update shapes i shape)
        (Function.update listings i (Function.update listings i .empty j)) := by
  obtain ⟨freed, s', hrun, hperm, hdestroyed⟩ := h.destroy i
  obtain ⟨tree', s'', shape, hcopy, hrepresents, hconfined⟩ :=
    WordTree.copyAux_eq (hdestroyed.represents j)
  have hput := hdestroyed.put (i := i) (tree', s'') hrepresents hconfined
    (fun _ _ _ _ => List.not_mem_nil) (hdestroyed.positive j)
  rw [Function.update_idem, Function.update_idem] at hput
  refine ⟨freed, _, shape, ?_, hperm, hput⟩
  have hnew : (w.put i (.new, s')).trees i = .new := Function.update_self ..
  rw [World.assign, hrun]
  show (WordTree.copyAux ((w.put i (.new, s')).trees j).root ((w.put i (.new, s')).trees i)
    (w.put i (.new, s')).store).bind _ = _
  rw [hnew, hcopy]
  rfl

/-- The trees of every program are disjoint search trees. -/
theorem Reached.exists_holds (h : Reached w) : ∃ shapes listings, w.Holds shapes listings := by
  induction h with
  | start choices =>
      exact ⟨fun _ => .nil, fun _ => .empty, fun _ => WordTree.new_represents _,
        fun _ _ ha => absurd ha List.not_mem_nil, fun _ _ he => absurd he List.not_mem_nil⟩
  | add i v _ hadd ih =>
      obtain ⟨shapes, listings, hholds⟩ := ih
      obtain ⟨w', shape, heq, hholds'⟩ := hholds.add i v
      obtain rfl := Option.some.inj (heq.symm.trans hadd)
      exact ⟨_, _, hholds'⟩
  | copy i j _ hcopy ih =>
      obtain ⟨shapes, listings, hholds⟩ := ih
      obtain ⟨w', shape, heq, hholds', -⟩ := hholds.copy i j
      obtain rfl := Option.some.inj (heq.symm.trans hcopy)
      exact ⟨_, _, hholds'⟩
  | assign i j _ hassign ih =>
      obtain ⟨shapes, listings, hholds⟩ := ih
      obtain ⟨freed, w', shape, heq, -, hholds'⟩ := hholds.assign i j
      obtain ⟨-, rfl⟩ := Prod.mk.inj (Option.some.inj (heq.symm.trans hassign))
      exact ⟨_, _, hholds'⟩
  | destroy i _ hdestroy ih =>
      obtain ⟨shapes, listings, hholds⟩ := ih
      obtain ⟨freed, s', heq, -, hholds'⟩ := hholds.destroy i
      rw [World.destroy, heq] at hdestroy
      cases hdestroy
      exact ⟨_, _, hholds'⟩

/-- Adding words to the trees never fails. -/
theorem Holds.addAll (h : w.Holds shapes listings) (adds : List (ι × StdString)) :
    ∃ w' shapes' listings', w.addAll adds = some w' ∧ w'.Holds shapes' listings' := by
  induction adds generalizing w shapes listings with
  | nil => exact ⟨w, shapes, listings, rfl, h⟩
  | cons call adds ih =>
      obtain ⟨i, v⟩ := call
      obtain ⟨w₁, shape, hadd, h₁⟩ := h.add i v
      obtain ⟨w', shapes', listings', hrest, h'⟩ := ih h₁
      refine ⟨w', shapes', listings', ?_, h'⟩
      rw [World.addAll, hadd]
      exact hrest

/-- A word that is added to one tree is not listed in another. -/
theorem Holds.listing_of_add (h : w.Holds shapes listings) (i : ι) (v : StdString) :
    ∃ w', w.add i v = some w' ∧ ∀ k, k ≠ i → w'.listing k = w.listing k := by
  obtain ⟨w', shape, hadd, h'⟩ := h.add i v
  refine ⟨w', hadd, fun k hk => ?_⟩
  rw [h'.listing, h.listing, Function.update_of_ne hk]

/-- Every tree can be copied, and the copy lives on its own. -/
theorem copies_of_reached (h : Reached w) (i j : ι) : w.Copies i j := by
  obtain ⟨shapes, listings, hholds⟩ := h.exists_holds
  obtain ⟨w', shape, hcopy, hholds', hcells⟩ := hholds.copy i j
  have hcopied : Function.update listings i (listings j) i = listings j := Function.update_self ..
  have hother : Function.update listings i (listings j) j = listings j := by
    by_cases hji : j = i
    · rw [hji, Function.update_self]
    · rw [Function.update_of_ne hji]
  refine ⟨w', hcopy, ⟨_, hholds.listing j, ?_, ?_⟩, ⟨_, _, hholds.distinctWords j,
    (hholds.represents j).totalWords, ?_, ?_⟩, fun out => ⟨?_, ?_⟩, hcells, fun adds => ?_⟩
  · rw [hholds'.listing, hcopied]
  · rw [hholds'.listing, hother]
  · rw [hholds'.distinctWords, hcopied]
  · exact hcopied ▸ (hholds'.represents i).totalWords
  · exact ((hcopied ▸ hholds'.represents i).print out).trans
      ((hholds.represents j).print out).symm
  · exact ((hother ▸ hholds'.represents j).print out).trans
      ((hholds.represents j).print out).symm
  · obtain ⟨w₁, shapes₁, listings₁, hadds, hholds₁⟩ := hholds'.addAll adds
    exact ⟨w₁, hadds, fun k v => hholds₁.listing_of_add k v⟩

/-- Exactly the assignments of a tree to another one are right, and those of an empty tree. -/
theorem trees_assigned_iff (h : Reached w) (x y : ι) :
    w.Assigns x y ↔ x ≠ y ∨ (w.trees x).root = none := by
  obtain ⟨shapes, listings, hholds⟩ := h.exists_holds
  obtain ⟨freed, w', shape, hassign, hperm, hholds'⟩ := hholds.assign x y
  have htree := hholds.represents x
  have hlisting := hholds'.listing x
  rw [Function.update_self] at hlisting
  constructor
  · intro hassigns
    obtain ⟨freed', w'', heq, hx, -⟩ := hassigns
    obtain ⟨-, rfl⟩ := Prod.mk.inj (Option.some.inj (hassign.symm.trans heq))
    rw [or_iff_not_imp_left, not_not]
    rintro rfl
    -- the tree was emptied ahead of its copy
    rw [hlisting, Function.update_self, hholds.listing, ← htree.listed, Option.some.injEq] at hx
    have hshape : shapes x = .nil := by
      cases hshape : shapes x with
      | nil => rfl
      | node node left right =>
          rw [hshape, nodes_node, values_append, values_cons] at hx
          exact absurd hx.symm (by simp [Listing.empty])
    rw [htree.root, hshape, top_nil]
  · intro hcase
    have hempty : y = x → (listings x).entries = [] := by
      intro hyx
      have hnull := hcase.resolve_left (not_not.2 hyx.symm)
      rw [← htree.listed, top_eq_none.1 (htree.root.symm.trans hnull)]
      rfl
    refine ⟨freed, w', hassign, ?_, ?_, hperm.nodup_iff.2 htree.distinct, fun a => ?_⟩
    · rw [hlisting, hholds.listing]
      by_cases hyx : y = x
      · subst hyx
        rw [Function.update_self, hempty rfl]
        rfl
      · rw [Function.update_of_ne hyx]
    · rw [hholds'.listing, hholds.listing]
      by_cases hyx : y = x
      · subst hyx
        rw [Function.update_self, Function.update_self, hempty rfl]
        rfl
      · rw [Function.update_of_ne hyx]
    · rw [hperm.mem_iff, htree.root, htree.linked.below_iff]

/-- A program that adds the words `b` and `a` to a tree. -/
def twoWords : World Bool :=
  let w : World Bool := (start []).put true
    (⟨some 0⟩, (Store.empty []).new ⟨⟨WordTree.bytes ['b'], 1⟩, none, none⟩)
  (w.add true (WordTree.bytes ['a'])).getD w

theorem twoWords_reached : Reached twoWords := by
  have hfirst : Reached ((start []).put true
      (⟨some 0⟩, (Store.empty []).new ⟨⟨WordTree.bytes ['b'], 1⟩, none, none⟩) : World Bool) :=
    .add true (WordTree.bytes ['b']) (.start []) rfl
  exact .add true (WordTree.bytes ['a']) hfirst rfl

/-- The word at the root of a tree. -/
def rootWord (w : World ι) (i : ι) : Option StdString := do
  let root ← (w.trees i).root
  let node ← w.store.cell? root
  some node.value.data

/-- The tree of two words is copied, and the copy has another root. -/
theorem twoWords_copies :
    twoWords.Copies false true ∧ twoWords.rootWord true = some (WordTree.bytes ['b']) ∧
      (twoWords.copy false true).bind (rootWord · false) = some (WordTree.bytes ['a']) :=
  ⟨copies_of_reached twoWords_reached false true, by decide, by decide⟩

/-- The program adds the words `c` and `b` to another tree. -/
def twoTrees : World Bool :=
  let w := (twoWords.add false (WordTree.bytes ['c'])).getD twoWords
  (w.add false (WordTree.bytes ['b'])).getD w

theorem twoTrees_reached : Reached twoTrees := by
  have hfirst : Reached ((twoWords.add false (WordTree.bytes ['c'])).getD twoWords) :=
    .add false (WordTree.bytes ['c']) twoWords_reached rfl
  exact .add false (WordTree.bytes ['b']) hfirst rfl

/-- The first tree is assigned to the other one, whose words it replaces. -/
theorem twoTrees_assigned : twoTrees.Assigns false true :=
  (trees_assigned_iff twoTrees_reached false true).2 (.inl (by decide))

/-- Assigned to itself, it is empty. -/
theorem twoWords_not_assigned : Reached twoWords ∧ ¬ twoWords.Assigns true true := by
  refine ⟨twoWords_reached, fun hassigns => ?_⟩
  obtain ⟨freed, w', hassign, hlisting, -⟩ := hassigns
  have hlost : (twoWords.assign true true).bind (fun result => result.2.listing true) =
      twoWords.listing true := by
    rw [hassign]
    exact hlisting
  exact absurd hlost (by decide)

end World

end Coursework.Words
