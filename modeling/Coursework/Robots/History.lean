import Mathlib.Data.List.Range
import Mathlib.Logic.Function.Basic

/-!
# The history of the robots game

`Before` counts in `m_historyGrid` how often the player ended a move or a stand in each cell. The
cells are numbered from 1, the array from 0 to `MAXROWS - 1` and `MAXCOLS - 1`, so the last row and
the last column of the largest arenas have no place in it. `history_right_iff` says for which
arenas every run stays inside the array and shows the right letters. An access outside it is
`none`. The robots have no influence on the history and are left out, and so is the result of a
shot.
-/

namespace Coursework.Robots

/-- `MAXROWS`. -/
def maxRows : Nat := 20

/-- `MAXCOLS`. -/
def maxCols : Nat := 40

/-- Where the element with two subscripts lies in the array, if it lies in it. -/
abbrev Indexing := Nat → Nat → Option Nat

/-- Both subscripts have to be in range. -/
def inRange : Indexing := fun r c =>
  if r < maxRows ∧ c < maxCols then some (maxCols * r + c) else none

/-- The address has to be one of the whole array, as on a machine without checks. -/
def inArray : Indexing := fun r c =>
  if maxCols * r + c < maxRows * maxCols then some (maxCols * r + c) else none

/-- An object of the class `Before`. -/
structure Before where
  mRows : Nat
  mCols : Nat
  mHistoryGrid : Nat → UInt8

/-- `'.'`. -/
def dot : UInt8 := 46

/-- `'Z'`. -/
def lastLetter : UInt8 := 90

namespace Before

/-- Read `m_historyGrid[r][c]`. -/
def read (index : Indexing) (b : Before) (r c : Nat) : Option UInt8 :=
  (index r c).map b.mHistoryGrid

/-- Write `m_historyGrid[r][c]`. -/
def write (index : Indexing) (b : Before) (r c : Nat) (value : UInt8) : Option Before :=
  (index r c).map fun place =>
    { b with mHistoryGrid := Function.update b.mHistoryGrid place value }

/-- The constructor, with the contents of the array before. -/
def new (index : Indexing) (memory : Nat → UInt8) (nRows nCols : Nat) : Option Before :=
  (List.range' 1 nRows).foldlM (fun b k =>
    (List.range' 1 nCols).foldlM (fun b j => b.write index k j dot) b) ⟨nRows, nCols, memory⟩

/-- `keepTrack`. -/
def keepTrack (index : Indexing) (b : Before) (r c : Nat) : Option (Before × Bool) := do
  if r < 1 ∨ c < 1 ∨ b.mRows < r ∨ b.mCols < c then pure (b, false)
  else
    let shown ← b.read index r c
    if shown = dot then
      let b ← b.write index r c 65
      pure (b, true)
    else if shown = lastLetter then pure (b, true)
    else
      let b ← b.write index r c (shown + 1)
      pure (b, true)

/-- The rows of characters that `printWhatWasBefore` prints. -/
def printWhatWasBefore (index : Indexing) (b : Before) : Option (List (List UInt8)) :=
  (List.range' 1 b.mRows).mapM fun k => (List.range' 1 b.mCols).mapM fun j => b.read index k j

end Before

/-- An object of the class `Player`. -/
structure Player where
  mRow : Nat
  mCol : Nat
  mAge : Nat

/-- What the player does in a turn. -/
inductive Action where
  | move (dir : Int)
  | stand
  | shoot (dir : Int)

/-- The arena: its size, its history and its player. -/
structure Arena where
  mRows : Nat
  mCols : Nat
  mHistory : Before
  mPlayer : Player

/-- Where a move in a direction leads; against a wall and in no direction the player stays. -/
def Player.moved (p : Player) (rows cols : Nat) (dir : Int) : Player :=
  if dir = 0 then if 1 < p.mRow then { p with mRow := p.mRow - 1 } else p
  else if dir = 1 then if p.mRow < rows then { p with mRow := p.mRow + 1 } else p
  else if dir = 2 then if 1 < p.mCol then { p with mCol := p.mCol - 1 } else p
  else if dir = 3 then if p.mCol < cols then { p with mCol := p.mCol + 1 } else p
  else p

/-- The player after an action. -/
def Player.act (p : Player) (rows cols : Nat) : Action → Player
  | .move dir => { p.moved rows cols dir with mAge := p.mAge + 1 }
  | .stand => { p with mAge := p.mAge + 1 }
  | .shoot _ => { p with mAge := p.mAge + 1 }

/-- Whether the action is recorded. -/
def Action.IsRecorded : Action → Bool
  | .move _ => true
  | .stand => true
  | .shoot _ => false

/-- `Player::move`, `Player::stand` and `Player::shoot`. -/
def Arena.act (index : Indexing) (a : Arena) (action : Action) : Option Arena := do
  let player := a.mPlayer.act a.mRows a.mCols action
  if action.IsRecorded then
    let (history, _) ← a.mHistory.keepTrack index player.mRow player.mCol
    pure { a with mHistory := history, mPlayer := player }
  else pure { a with mPlayer := player }

/-- An arena is made for a player, who then acts. -/
def Arena.run (index : Indexing) (memory : Nat → UInt8) (nRows nCols : Nat) (player : Player)
    (actions : List Action) : Option Arena := do
  let history ← Before.new index memory nRows nCols
  actions.foldlM (Arena.act index) ⟨nRows, nCols, history, player⟩

/-! ## What has to be shown -/

/-- The cell is one of the arena. -/
def IsCell (nRows nCols r c : Nat) : Prop :=
  (1 ≤ r ∧ r ≤ nRows) ∧ 1 ≤ c ∧ c ≤ nCols

/-- The character for a number of visits: a dot for none, and else the capital letter with this
number, or the last one. -/
def letter (visits : Nat) : UInt8 :=
  if visits = 0 then dot else if visits < 26 then UInt8.ofNat (64 + visits) else lastLetter

/-- The cells in which the player ends a move or a stand. -/
def endings (nRows nCols : Nat) : Player → List Action → List (Nat × Nat)
  | _, [] => []
  | p, action :: actions =>
      let p := p.act nRows nCols action
      if action.IsRecorded then (p.mRow, p.mCol) :: endings nRows nCols p actions
      else endings nRows nCols p actions

/-- The run stays inside the array, and printing the history afterwards does and shows how often
the player ended a move or a stand in each cell. -/
def HistoryRight (index : Indexing) (memory : Nat → UInt8) (nRows nCols : Nat) (player : Player)
    (actions : List Action) : Prop :=
  ∃ a, Arena.run index memory nRows nCols player actions = some a ∧
    a.mHistory.printWhatWasBefore index = some ((List.range' 1 nRows).map fun r =>
      (List.range' 1 nCols).map fun c => letter ((endings nRows nCols player actions).count (r, c)))

/-- Every cell has its own place in the array. -/
structure Indexing.Fits (index : Indexing) (nRows nCols : Nat) : Prop where
  inside : ∀ r c, IsCell nRows nCols r c → (index r c).isSome
  separate : ∀ r c r' c', IsCell nRows nCols r c → IsCell nRows nCols r' c' →
    index r c = index r' c' → r = r' ∧ c = c'

variable {index : Indexing} {nRows nCols : Nat} {b : Before} {r c : Nat}

/-- The numbers from 1 to `n`. -/
theorem mem_range'_one {k n : Nat} : k ∈ List.range' 1 n ↔ 1 ≤ k ∧ k ≤ n := by
  rw [List.mem_range'_1]
  omega

/-- The letter for one more visit. -/
theorem letter_succ (visits : Nat) :
    letter (visits + 1) = if letter visits = dot then 65
      else if letter visits = lastLetter then letter visits else letter visits + 1 := by
  have hsmall : ∀ n < 26, letter (n + 1) = if letter n = dot then 65
      else if letter n = lastLetter then letter n else letter n + 1 := by decide
  by_cases hvisits : visits < 26
  · exact hsmall visits hvisits
  · have hlast : letter visits = lastLetter := by
      rw [letter, if_neg (by omega), if_neg hvisits]
    rw [hlast, if_neg (by decide), if_pos rfl, letter, if_neg (by omega), if_neg (by omega)]

/-! ## Reading and writing -/

namespace Before

/-- Writing a cell changes this cell only. -/
theorem exists_write (hfits : index.Fits nRows nCols) (hcell : IsCell nRows nCols r c)
    (b : Before) (value : UInt8) :
    ∃ b', b.write index r c value = some b' ∧ b'.mRows = b.mRows ∧ b'.mCols = b.mCols ∧
      ∀ r' c', IsCell nRows nCols r' c' →
        b'.read index r' c' = if (r', c') = (r, c) then some value else b.read index r' c' := by
  obtain ⟨place, hplace⟩ := Option.isSome_iff_exists.1 (hfits.inside r c hcell)
  refine ⟨{ b with mHistoryGrid := Function.update b.mHistoryGrid place value },
    by rw [write, hplace, Option.map_some], rfl, rfl, fun r' c' hcell' => ?_⟩
  obtain ⟨place', hplace'⟩ := Option.isSome_iff_exists.1 (hfits.inside r' c' hcell')
  simp only [read, hplace', Option.map_some]
  split
  · next heq =>
      cases heq
      obtain rfl := Option.some.inj (hplace.symm.trans hplace')
      rw [Function.update_self]
  · next hne =>
      have hplaces : place' ≠ place := by
        rintro rfl
        obtain ⟨rfl, rfl⟩ := hfits.separate r' c' r c hcell' hcell (hplace'.trans hplace.symm)
        exact hne rfl
      rw [Function.update_of_ne hplaces]

/-- If a loop comes to its end, so does its body for every item. -/
theorem exists_of_foldlM {α : Type} {f : Before → α → Option Before} {items : List α}
    {b b' : Before} (h : items.foldlM f b = some b') :
    ∀ a ∈ items, ∃ before after, f before a = some after := by
  induction items generalizing b with
  | nil => simp
  | cons a items ih =>
      rw [List.foldlM_cons] at h
      simp only [bind, Option.bind_eq_some_iff] at h
      obtain ⟨after, hfirst, hrest⟩ := h
      exact List.forall_mem_cons.2 ⟨⟨b, after, hfirst⟩, ih hrest⟩

/-- The history shows how often each cell of the arena is listed. -/
structure Shows (index : Indexing) (nRows nCols : Nat) (visits : List (Nat × Nat)) (b : Before) :
    Prop where
  rows : b.mRows = nRows
  cols : b.mCols = nCols
  shown : ∀ r c, IsCell nRows nCols r c → b.read index r c = some (letter (visits.count (r, c)))

/-- `keepTrack` records a visit. -/
theorem Shows.keepTrack {visits : List (Nat × Nat)} (hfits : index.Fits nRows nCols)
    (h : b.Shows index nRows nCols visits) (hcell : IsCell nRows nCols r c) :
    ∃ b', b.keepTrack index r c = some (b', true) ∧
      b'.Shows index nRows nCols (visits ++ [(r, c)]) := by
  have hguard : ¬ (r < 1 ∨ c < 1 ∨ b.mRows < r ∨ b.mCols < c) := by
    rw [h.rows, h.cols]
    unfold IsCell at hcell
    omega
  -- All three branches leave the letter of one more visit.
  have hwritten : ∃ b', b.keepTrack index r c = some (b', true) ∧ b'.mRows = b.mRows ∧
      b'.mCols = b.mCols ∧ ∀ r' c', IsCell nRows nCols r' c' → b'.read index r' c' =
        if (r', c') = (r, c) then some (letter (visits.count (r, c) + 1))
        else b.read index r' c' := by
    rw [Before.keepTrack, if_neg hguard, h.shown r c hcell, letter_succ]
    simp only [bind, Option.bind_some, pure]
    split_ifs with hdot hlast
    · obtain ⟨b', hwrite, hrest⟩ := exists_write hfits hcell b 65
      exact ⟨b', by rw [hwrite, Option.bind_some], hrest⟩
    · refine ⟨b, rfl, rfl, rfl, fun r' c' hcell' => ?_⟩
      split
      · next heq =>
          cases heq
          exact h.shown _ _ hcell
      · rfl
    · obtain ⟨b', hwrite, hrest⟩ := exists_write hfits hcell b (letter (visits.count (r, c)) + 1)
      exact ⟨b', by rw [hwrite, Option.bind_some], hrest⟩
  obtain ⟨b', hkeep, hrows, hcols, hread⟩ := hwritten
  refine ⟨b', hkeep, hrows.trans h.rows, hcols.trans h.cols, fun r' c' hcell' => ?_⟩
  rw [hread r' c' hcell', List.count_append, List.count_singleton]
  split
  · next heq => simp [heq]
  · next hne => simp [h.shown r' c' hcell', Ne.symm hne]

/-- Clearing a row clears its cells and keeps the clear cells. -/
theorem exists_clearRow (hfits : index.Fits nRows nCols) {k : Nat} {js : List Nat}
    (hcells : ∀ j ∈ js, IsCell nRows nCols k j) (b : Before) :
    ∃ b', js.foldlM (fun b j => b.write index k j dot) b = some b' ∧ b'.mRows = b.mRows ∧
      b'.mCols = b.mCols ∧ ∀ r c, IsCell nRows nCols r c →
        (r = k ∧ c ∈ js) ∨ b.read index r c = some dot → b'.read index r c = some dot := by
  induction js generalizing b with
  | nil =>
      refine ⟨b, rfl, rfl, rfl, fun r c _ hclear => ?_⟩
      simpa using hclear
  | cons j js ih =>
      obtain ⟨hj, hjs⟩ := List.forall_mem_cons.1 hcells
      obtain ⟨first, hwrite, hrows, hcols, hread⟩ := exists_write hfits hj b dot
      obtain ⟨b', hrest, hrows', hcols', hclear'⟩ := ih hjs first
      refine ⟨b', by rw [List.foldlM_cons, hwrite]; exact hrest, hrows'.trans hrows,
        hcols'.trans hcols, fun r c hcell hclear => hclear' r c hcell ?_⟩
      rw [hread r c hcell]
      by_cases heq : (r, c) = (k, j)
      · exact .inr (if_pos heq)
      · rw [if_neg heq]
        refine hclear.imp_left fun ⟨hr, hc⟩ => ⟨hr, (List.mem_cons.1 hc).resolve_left fun hc => ?_⟩
        exact heq (by rw [hr, hc])

/-- Clearing some rows clears their cells and keeps the clear cells. -/
theorem exists_clearRows (hfits : index.Fits nRows nCols) {ks : List Nat}
    (hrows : ∀ k ∈ ks, 1 ≤ k ∧ k ≤ nRows) (b : Before) :
    ∃ b', ks.foldlM (fun b k =>
        (List.range' 1 nCols).foldlM (fun b j => b.write index k j dot) b) b = some b' ∧
      b'.mRows = b.mRows ∧ b'.mCols = b.mCols ∧ ∀ r c, IsCell nRows nCols r c →
        r ∈ ks ∨ b.read index r c = some dot → b'.read index r c = some dot := by
  induction ks generalizing b with
  | nil => exact ⟨b, rfl, rfl, rfl, fun r c _ hclear => by simpa using hclear⟩
  | cons k ks ih =>
      obtain ⟨hk, hks⟩ := List.forall_mem_cons.1 hrows
      have hcells : ∀ j ∈ List.range' 1 nCols, IsCell nRows nCols k j := fun j hj => by
        have hj := List.mem_range'_1.1 hj
        exact ⟨hk, hj.1, by omega⟩
      obtain ⟨first, hrow, hrows, hcols, hread⟩ := exists_clearRow hfits hcells b
      obtain ⟨b', hrest, hrows', hcols', hclear'⟩ := ih hks first
      refine ⟨b', by rw [List.foldlM_cons, hrow]; exact hrest, hrows'.trans hrows,
        hcols'.trans hcols, fun r c hcell hclear => hclear' r c hcell ?_⟩
      rcases hclear with hr | hclear
      · refine (List.mem_cons.1 hr).symm.imp_right fun hr => hread r c hcell (.inl ⟨hr, ?_⟩)
        exact mem_range'_one.2 hcell.2
      · exact .inr (hread r c hcell (.inr hclear))

/-- The constructor clears all cells. -/
theorem exists_new (hfits : index.Fits nRows nCols) (memory : Nat → UInt8) :
    ∃ b, Before.new index memory nRows nCols = some b ∧ b.Shows index nRows nCols [] := by
  obtain ⟨b, hnew, hrows, hcols, hclear⟩ :=
    exists_clearRows hfits (fun k => (mem_range'_one (n := nRows)).1) ⟨nRows, nCols, memory⟩
  exact ⟨b, hnew, hrows, hcols, fun r c hcell =>
    hclear r c hcell (.inl (mem_range'_one.2 hcell.1))⟩

/-- The constructor writes every cell. -/
theorem inside_of_new {memory : Nat → UInt8} (h : Before.new index memory nRows nCols = some b)
    (hcell : IsCell nRows nCols r c) : (index r c).isSome := by
  obtain ⟨_, _, hrow⟩ := exists_of_foldlM h r (mem_range'_one.2 hcell.1)
  obtain ⟨_, _, hwrite⟩ := exists_of_foldlM hrow c (mem_range'_one.2 hcell.2)
  obtain ⟨place, hplace, -⟩ := Option.map_eq_some_iff.1 hwrite
  exact Option.isSome_iff_exists.2 ⟨place, hplace⟩

/-- What is printed. -/
theorem Shows.print {visits : List (Nat × Nat)} (h : b.Shows index nRows nCols visits) :
    b.printWhatWasBefore index = some ((List.range' 1 nRows).map fun r =>
      (List.range' 1 nCols).map fun c => letter (visits.count (r, c))) := by
  have hmapM : ∀ {α : Type} {f : Nat → Option α} {g : Nat → α} {ns : List Nat},
      (∀ n ∈ ns, f n = some (g n)) → ns.mapM f = some (ns.map g) := by
    intro α f g ns hns
    induction ns with
    | nil => rfl
    | cons n ns ih =>
        obtain ⟨hn, hns⟩ := List.forall_mem_cons.1 hns
        rw [List.mapM_cons, hn, ih hns]
        rfl
  unfold printWhatWasBefore
  rw [h.rows, h.cols]
  exact hmapM fun r hr => hmapM fun c hc =>
    h.shown r c ⟨mem_range'_one.1 hr, mem_range'_one.1 hc⟩

end Before

/-! ## Runs -/

/-- Moving keeps the player in the arena. -/
theorem Player.isCell_moved {p : Player} (h : IsCell nRows nCols p.mRow p.mCol) (dir : Int) :
    IsCell nRows nCols (p.moved nRows nCols dir).mRow (p.moved nRows nCols dir).mCol := by
  obtain ⟨⟨hr, hr'⟩, hc, hc'⟩ := h
  unfold Player.moved
  split_ifs with _ hup _ hdown _ hleft _ hright
  · exact ⟨⟨Nat.le_sub_one_of_lt hup, (Nat.sub_le _ _).trans hr'⟩, hc, hc'⟩
  · exact ⟨⟨hr, hr'⟩, hc, hc'⟩
  · exact ⟨⟨Nat.le_add_left _ _, hdown⟩, hc, hc'⟩
  · exact ⟨⟨hr, hr'⟩, hc, hc'⟩
  · exact ⟨⟨hr, hr'⟩, Nat.le_sub_one_of_lt hleft, (Nat.sub_le _ _).trans hc'⟩
  · exact ⟨⟨hr, hr'⟩, hc, hc'⟩
  · exact ⟨⟨hr, hr'⟩, Nat.le_add_left _ _, hright⟩
  · exact ⟨⟨hr, hr'⟩, hc, hc'⟩
  · exact ⟨⟨hr, hr'⟩, hc, hc'⟩

/-- Acting keeps the player in the arena. -/
theorem Player.isCell_act {p : Player} (h : IsCell nRows nCols p.mRow p.mCol) (action : Action) :
    IsCell nRows nCols (p.act nRows nCols action).mRow (p.act nRows nCols action).mCol := by
  cases action with
  | move dir => exact isCell_moved h dir
  | stand => exact h
  | shoot dir => exact h

/-- An action adds the cell in which it ends, unless it is a shot. -/
theorem Arena.exists_act (hfits : index.Fits nRows nCols) {p : Player}
    (hcell : IsCell nRows nCols p.mRow p.mCol) {visits : List (Nat × Nat)}
    (h : b.Shows index nRows nCols visits) (action : Action) :
    ∃ b', Arena.act index ⟨nRows, nCols, b, p⟩ action =
        some ⟨nRows, nCols, b', p.act nRows nCols action⟩ ∧
      b'.Shows index nRows nCols (visits ++ endings nRows nCols p [action]) := by
  have hcell' := p.isCell_act hcell action
  simp only [Arena.act, endings]
  split
  · obtain ⟨b', hkeep, hshows⟩ := h.keepTrack hfits hcell'
    exact ⟨b', by rw [hkeep]; rfl, hshows⟩
  · exact ⟨b, rfl, by simpa using h⟩

/-- A run adds the cells in which its moves and stands end. -/
theorem Arena.exists_foldlM (hfits : index.Fits nRows nCols) {p : Player}
    (hcell : IsCell nRows nCols p.mRow p.mCol) {visits : List (Nat × Nat)}
    (h : b.Shows index nRows nCols visits) (actions : List Action) :
    ∃ a, actions.foldlM (Arena.act index) ⟨nRows, nCols, b, p⟩ = some a ∧
      a.mHistory.Shows index nRows nCols (visits ++ endings nRows nCols p actions) := by
  induction actions generalizing b p visits with
  | nil => exact ⟨_, rfl, by simpa [endings] using h⟩
  | cons action actions ih =>
      obtain ⟨b', hact, hshows⟩ := exists_act hfits hcell h action
      obtain ⟨a, hrest, hshows'⟩ := ih (p.isCell_act hcell action) hshows
      refine ⟨a, by rw [List.foldlM_cons, hact]; exact hrest, ?_⟩
      rw [List.append_assoc] at hshows'
      have hendings : endings nRows nCols p (action :: actions) = endings nRows nCols p [action] ++
          endings nRows nCols (p.act nRows nCols action) actions := by
        simp only [endings]
        split <;> rfl
      rwa [hendings]

/-- The history is right if and only if every cell has a place in the array. -/
theorem historyRight_iff_inside {player : Player}
    (hcell : IsCell nRows nCols player.mRow player.mCol)
    (hseparate : ∀ r c r' c', IsCell nRows nCols r c → IsCell nRows nCols r' c' →
      (index r c).isSome → index r c = index r' c' → r = r' ∧ c = c')
    (memory : Nat → UInt8) (actions : List Action) :
    HistoryRight index memory nRows nCols player actions ↔
      ∀ r c, IsCell nRows nCols r c → (index r c).isSome := by
  constructor
  · intro ⟨a, hrun, _⟩ r c hcell'
    simp only [Arena.run, bind, Option.bind_eq_some_iff] at hrun
    obtain ⟨history, hnew, -⟩ := hrun
    exact Before.inside_of_new hnew hcell'
  · intro hinside
    have hfits : index.Fits nRows nCols := ⟨hinside, fun r c r' c' h h' =>
      hseparate r c r' c' h h' (hinside r c h)⟩
    obtain ⟨history, hnew, hshows⟩ := Before.exists_new hfits memory
    obtain ⟨a, hrun, hshows'⟩ := Arena.exists_foldlM hfits hcell hshows actions
    refine ⟨a, by rw [Arena.run, hnew]; exact hrun, ?_⟩
    exact hshows'.print

/-- Different cells have different places, also where a row runs on into the next one. -/
theorem eq_of_address {r' c' : Nat} (hcols : nCols ≤ maxCols) (h : IsCell nRows nCols r c)
    (h' : IsCell nRows nCols r' c') (heq : maxCols * r + c = maxCols * r' + c') :
    r = r' ∧ c = c' := by
  unfold IsCell maxCols at *
  omega

/-- With checked subscripts, the arena fits if it is smaller than the largest one both ways. -/
theorem historyRight_inRange_iff {player : Player} (hrows : 1 ≤ nRows) (hcols : 1 ≤ nCols)
    (hmax : nCols ≤ maxCols) (hcell : IsCell nRows nCols player.mRow player.mCol)
    (memory : Nat → UInt8) (actions : List Action) :
    HistoryRight inRange memory nRows nCols player actions ↔ nRows < maxRows ∧ nCols < maxCols := by
  have hinside : ∀ r c, (inRange r c).isSome ↔ r < maxRows ∧ c < maxCols := by
    intro r c
    unfold inRange
    split_ifs with h <;> simp [h]
  rw [historyRight_iff_inside hcell]
  · simp only [hinside]
    constructor
    · exact fun h => h nRows nCols ⟨⟨hrows, le_rfl⟩, hcols, le_rfl⟩
    · exact fun h r c hrc => ⟨hrc.1.2.trans_lt h.1, hrc.2.2.trans_lt h.2⟩
  · intro r c r' c' h h' hsome heq
    have hsome' : (inRange r' c').isSome := heq ▸ hsome
    rw [inRange, inRange, if_pos ((hinside r c).1 hsome), if_pos ((hinside r' c').1 hsome')] at heq
    exact eq_of_address hmax h h' (Option.some.inj heq)

/-- Without checks, the arena fits if its last cell does. -/
theorem historyRight_inArray_iff {player : Player} (hrows : 1 ≤ nRows) (hcols : 1 ≤ nCols)
    (hmax : nCols ≤ maxCols) (hcell : IsCell nRows nCols player.mRow player.mCol)
    (memory : Nat → UInt8) (actions : List Action) :
    HistoryRight inArray memory nRows nCols player actions ↔
      maxCols * nRows + nCols < maxRows * maxCols := by
  have hinside : ∀ r c, (inArray r c).isSome ↔ maxCols * r + c < maxRows * maxCols := by
    intro r c
    unfold inArray
    split_ifs with h <;> simp [h]
  rw [historyRight_iff_inside hcell]
  · simp only [hinside]
    constructor
    · exact fun h => h nRows nCols ⟨⟨hrows, le_rfl⟩, hcols, le_rfl⟩
    · intro h r c hrc
      have hrow : maxCols * r ≤ maxCols * nRows := Nat.mul_le_mul_left _ hrc.1.2
      have hcol := hrc.2.2
      omega
  · intro r c r' c' h h' hsome heq
    have hsome' : (inArray r' c').isSome := heq ▸ hsome
    rw [inArray, inArray, if_pos ((hinside r c).1 hsome), if_pos ((hinside r' c').1 hsome')] at heq
    exact eq_of_address hmax h h' (Option.some.inj heq)

/-- When the history is right in every run of an arena that the program accepts: if it has less
than `MAXROWS` rows and less than `MAXCOLS` columns; and without checked subscripts, if its last
cell lies in the array. -/
theorem history_right_iff {player : Player} (hrows : 1 ≤ nRows ∧ nRows ≤ maxRows)
    (hcols : 1 ≤ nCols ∧ nCols ≤ maxCols) (hcell : IsCell nRows nCols player.mRow player.mCol)
    (memory : Nat → UInt8) (actions : List Action) :
    (HistoryRight inRange memory nRows nCols player actions ↔
      nRows < maxRows ∧ nCols < maxCols) ∧
    (HistoryRight inArray memory nRows nCols player actions ↔
      maxCols * nRows + nCols < maxRows * maxCols) :=
  ⟨historyRight_inRange_iff hrows.1 hcols.1 hcols.2 hcell memory actions,
    historyRight_inArray_iff hrows.1 hcols.1 hcols.2 hcell memory actions⟩

/-- An arena with 3 rows and 5 columns. -/
theorem small_history_right :
    (HistoryRight inRange (fun _ => 0) 3 5 ⟨2, 2, 0⟩ [.stand, .move 0, .shoot 1] ↔
      3 < maxRows ∧ 5 < maxCols) ∧
    (HistoryRight inArray (fun _ => 0) 3 5 ⟨2, 2, 0⟩ [.stand, .move 0, .shoot 1] ↔
      maxCols * 3 + 5 < maxRows * maxCols) :=
  history_right_iff (by decide) (by decide) ⟨by decide, by decide⟩ _ _

/-- The constructor of the largest arena writes behind the array, and in an arena with one row and
40 columns it writes behind the row. -/
theorem large_history_wrong :
    ¬ HistoryRight inRange (fun _ => 0) 20 40 ⟨1, 1, 0⟩ [] ∧
      ¬ HistoryRight inArray (fun _ => 0) 20 40 ⟨1, 1, 0⟩ [] ∧
      ¬ HistoryRight inRange (fun _ => 0) 1 40 ⟨1, 1, 0⟩ [] := by
  refine ⟨fun h => ?_, fun h => ?_, fun h => ?_⟩
  · exact absurd ((historyRight_inRange_iff (by decide) (by decide) le_rfl
      ⟨by decide, by decide⟩ _ _).1 h) (by decide)
  · exact absurd ((historyRight_inArray_iff (by decide) (by decide) le_rfl
      ⟨by decide, by decide⟩ _ _).1 h) (by decide)
  · exact absurd ((historyRight_inRange_iff (by decide) (by decide) le_rfl
      ⟨by decide, by decide⟩ _ _).1 h) (by decide)

end Coursework.Robots
