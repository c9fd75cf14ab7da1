import Coursework.LogClient.Program

/-!
# When the log buffers are accounted for

Only `init_buf` and `grow_buffer` compute `avaliable`, so it is right until the first byte is
logged. `safeRun_iff` says that a run keeps the buffers accounted for exactly if it logs nothing.
`mainLoop_isSome_iff` says what comes of it: with reads of at most `READ_SIZE` bytes no buffer ever
grows, and a run stays inside the arrays exactly if it logs at most `READ_SIZE` bytes in each.
Vocabulary and scope: `Coursework.LogClient.Program`.
-/

namespace Coursework.LogClient

/-- The free space is the rest of the capacity, and the load is within it. -/
def Buffer.Sound (buf : Buffer) : Prop :=
  buf.avaliable = buf.capacity - buf.load ∧ buf.load ≤ buf.capacity

/-- Both buffers are sound. -/
def Client.Sound (client : Client) : Prop :=
  client.sent.Sound ∧ client.recv.Sound

/-- Every store of a run is inside the arrays, and every state is sound. -/
def SafeRun (compress : Bool) (polls : List Poll) : Prop :=
  ∃ states, mainLoop compress .init polls = some states ∧
    ∀ client ∈ Client.init :: states, client.Sound

/-- The bytes that are logged for a key. -/
def Key.logged (compress : Bool) (key : Key) : List UInt8 :=
  if compress then key.zip
  else [if key.char = crChar ∨ key.char = lfChar then spChar else key.char]

/-- The bytes from the socket that are logged. -/
def Poll.logged (poll : Poll) : List UInt8 :=
  if poll.hangup then [] else (poll.socket.map Received.bytes).getD []

/-- The client exits in this round. -/
def Poll.ends (compress : Bool) (poll : Poll) : Bool :=
  poll.hangup || poll.socket.any fun received =>
    received.bytes = [] || showsEnd compress received

/-- The rounds up to the exit. -/
def executed (compress : Bool) : List Poll → List Poll
  | [] => []
  | poll :: polls => poll :: if poll.ends compress then [] else executed compress polls

/-- A round in which nothing is logged. -/
def Poll.Quiet (compress : Bool) (poll : Poll) : Prop :=
  (∀ key ∈ poll.keys, key.logged compress = []) ∧ poll.logged = []

variable {compress : Bool} {buf buf' : Buffer} {bytes : List UInt8} {client client' : Client}

/-- A fresh client is sound. -/
theorem init_sound : Client.init.Sound := by
  unfold Client.Sound Buffer.Sound Client.init Buffer.init readSize
  decide

/-! ## A sound log entry is empty -/

/-- Growing a buffer keeps its load, and the free space right if it was. -/
theorem growFor_eq {size : Int} {fuel : Nat} (h : buf.growFor size fuel = some buf')
    (hsound : buf.avaliable = buf.capacity - buf.load) :
    buf'.load = buf.load ∧ buf'.avaliable = buf'.capacity - buf'.load := by
  induction fuel generalizing buf with
  | zero => cases h
  | succ fuel ih =>
      unfold Buffer.growFor at h
      split at h
      · obtain ⟨hload, hfree⟩ := ih h rfl
        exact ⟨hload, hfree⟩
      · cases h
        exact ⟨rfl, hsound⟩

/-- A store changes the array only. -/
theorem store_eq (h : buf.store bytes = some buf') :
    buf'.capacity = buf.capacity ∧ buf'.load = buf.load ∧ buf'.avaliable = buf.avaliable := by
  unfold Buffer.store at h
  split at h
  · cases h
    exact ⟨rfl, rfl, rfl⟩
  · cases h

/-- A chunk that leaves a sound buffer sound is empty. -/
theorem eq_nil_of_logChunk (h : buf.logChunk bytes = some buf') (hsound : buf.Sound)
    (hsound' : buf'.Sound) : bytes = [] := by
  obtain ⟨grown, hgrow, h⟩ := Option.bind_eq_some_iff.1 h
  obtain ⟨stored, hstore, h⟩ := Option.bind_eq_some_iff.1 h
  cases h
  obtain ⟨hload, hfree⟩ := growFor_eq hgrow hsound.1
  obtain ⟨hcapacity, hload', hfree'⟩ := store_eq hstore
  have hnow : stored.avaliable = stored.capacity - (stored.load + bytes.length) := hsound'.1
  rw [← List.length_eq_zero_iff]
  omega

/-- A single byte does not leave a sound buffer sound. -/
theorem not_sound_of_logByte {byte : UInt8} (h : buf.logByte byte = some buf')
    (hsound : buf.Sound) : ¬ buf'.Sound := by
  intro hsound'
  obtain ⟨stored, hstore, h⟩ := Option.bind_eq_some_iff.1 h
  cases h
  obtain ⟨hcapacity, hload, hfree⟩ := store_eq hstore
  have hnow : stored.avaliable = stored.capacity - (stored.load + 1) := hsound'.1
  have hthen := hsound.1
  split at hfree
  · next hgrow =>
    rw [if_pos hgrow] at hcapacity hload
    simp only [Buffer.grow] at hcapacity hload hfree
    omega
  · next hroom =>
    rw [if_neg hroom] at hcapacity hload
    omega

/-- A key that leaves a sound client sound logs nothing. -/
theorem logged_of_typeKey {key : Key} (h : typeKey compress client key = some client')
    (hsound : client.Sound) (hsound' : client'.Sound) : key.logged compress = [] := by
  unfold typeKey at h
  unfold Key.logged
  cases compress with
  | true =>
      rw [if_pos rfl] at h ⊢
      obtain ⟨sent, hlog, h⟩ := Option.bind_eq_some_iff.1 h
      cases h
      exact eq_nil_of_logChunk hlog hsound.1 hsound'.1
  | false =>
      rw [if_neg Bool.false_ne_true] at h
      split at h
      all_goals
        obtain ⟨sent, hlog, h⟩ := Option.bind_eq_some_iff.1 h
        cases h
        exact absurd hsound'.1 (not_sound_of_logByte hlog hsound.1)

/-- The keys that leave a sound client sound log nothing, by induction on the keys. -/
theorem logged_of_typeKeys {keys : List Key} {states : List Client}
    (h : typeKeys compress client keys = some states) (hsound : client.Sound)
    (hstates : ∀ state ∈ states, state.Sound) :
    (∀ key ∈ keys, key.logged compress = []) ∧ (states.getLastD client).Sound := by
  induction keys generalizing client states with
  | nil =>
      cases h
      exact ⟨fun _ hkey => absurd hkey List.not_mem_nil, hsound⟩
  | cons key keys ih =>
      obtain ⟨next, hnext, h⟩ := Option.bind_eq_some_iff.1 h
      obtain ⟨rest, hrest, h⟩ := Option.bind_eq_some_iff.1 h
      cases h
      obtain ⟨hnextSound, hrestSound⟩ := List.forall_mem_cons.1 hstates
      obtain ⟨hkeys, hlast⟩ := ih hrest hnextSound hrestSound
      refine ⟨List.forall_mem_cons.2 ⟨logged_of_typeKey hnext hsound hnextSound, hkeys⟩, ?_⟩
      rwa [List.getLastD_cons]

/-- When a round ends the run. -/
theorem ends_of_round {poll : Poll} {states : List Client} {exits : Bool}
    (h : round compress client poll = some (states, exits)) : exits = poll.ends compress := by
  obtain ⟨typed, -, h⟩ := Option.bind_eq_some_iff.1 h
  unfold Poll.ends
  split at h
  · next hhangup =>
    cases h
    rw [hhangup, Bool.true_or]
  · next hhangup =>
    rw [Bool.not_eq_true] at hhangup
    rw [hhangup, Bool.false_or]
    cases hsocket : poll.socket with
    | none =>
        rw [hsocket] at h
        cases h
        rfl
    | some received =>
        rw [hsocket] at h
        obtain ⟨⟨next, exits'⟩, hdata, h⟩ := Option.bind_eq_some_iff.1 h
        cases h
        unfold getServerData at hdata
        rw [Option.any_some]
        split at hdata
        · next hclosed =>
          cases hdata
          simp [hclosed]
        · next hopen =>
          obtain ⟨recv, -, hdata⟩ := Option.bind_eq_some_iff.1 hdata
          cases hdata
          simp [hopen]

/-- A round with sound states only logs nothing. -/
theorem quiet_of_round {poll : Poll} {states : List Client} {exits : Bool}
    (h : round compress client poll = some (states, exits)) (hsound : client.Sound)
    (hstates : ∀ state ∈ states, state.Sound) : poll.Quiet compress := by
  obtain ⟨typed, htyped, h⟩ := Option.bind_eq_some_iff.1 h
  unfold Poll.Quiet Poll.logged
  split at h
  · next hhangup =>
    cases h
    rw [if_pos hhangup]
    exact ⟨(logged_of_typeKeys htyped hsound hstates).1, rfl⟩
  · next hhangup =>
    rw [if_neg hhangup]
    cases hsocket : poll.socket with
    | none =>
        rw [hsocket] at h
        cases h
        exact ⟨(logged_of_typeKeys htyped hsound hstates).1, rfl⟩
    | some received =>
        rw [hsocket] at h
        obtain ⟨⟨next, exits'⟩, hdata, h⟩ := Option.bind_eq_some_iff.1 h
        cases h
        rw [List.forall_mem_append, List.forall_mem_singleton] at hstates
        obtain ⟨hkeys, hlast⟩ := logged_of_typeKeys htyped hsound hstates.1
        refine ⟨hkeys, ?_⟩
        show received.bytes = []
        unfold getServerData at hdata
        split at hdata
        · next hclosed => exact hclosed
        · obtain ⟨recv, hlog, hdata⟩ := Option.bind_eq_some_iff.1 hdata
          cases hdata
          exact eq_nil_of_logChunk hlog hlast.2 hstates.2.2

/-- The state after a list of sound states is sound. -/
theorem sound_getLastD {states : List Client} (hsound : client.Sound)
    (hstates : ∀ state ∈ states, state.Sound) : (states.getLastD client).Sound := by
  rcases List.eq_nil_or_concat' states with rfl | ⟨front, last, rfl⟩
  · exact hsound
  · rw [List.getLastD_concat]
    exact hstates last (List.mem_append_right _ List.mem_cons_self)

/-- In a run with sound states only nothing is logged, by induction on the rounds. -/
theorem quiet_of_mainLoop {polls : List Poll} {states : List Client}
    (h : mainLoop compress client polls = some states) (hsound : client.Sound)
    (hstates : ∀ state ∈ states, state.Sound) :
    ∀ poll ∈ executed compress polls, poll.Quiet compress := by
  induction polls generalizing client states with
  | nil => exact fun _ hpoll => absurd hpoll List.not_mem_nil
  | cons poll polls ih =>
      obtain ⟨⟨now, exits⟩, hround, h⟩ := Option.bind_eq_some_iff.1 h
      unfold executed
      rw [← ends_of_round hround, List.forall_mem_cons]
      cases exits with
      | true =>
          cases h
          exact ⟨quiet_of_round hround hsound hstates, fun _ hpoll => absurd hpoll List.not_mem_nil⟩
      | false =>
          obtain ⟨rest, hrest, h⟩ := Option.bind_eq_some_iff.1 h
          cases h
          rw [List.forall_mem_append] at hstates
          have hlast := sound_getLastD hsound hstates.1
          exact ⟨quiet_of_round hround hsound hstates.1, ih hrest hlast hstates.2⟩

/-! ## Logging nothing -/

/-- Logging an empty chunk leaves a sound buffer as it is. -/
theorem logChunk_nil (hsound : buf.Sound) (hload : 0 ≤ buf.load) :
    buf.logChunk [] = some buf := by
  have hfree : ¬ buf.avaliable < (([] : List UInt8).length : Int) := by
    rw [hsound.1, List.length_nil]
    have hle := hsound.2
    omega
  have hinside : 0 ≤ buf.load ∧ buf.load + (([] : List UInt8).length : Int) ≤ buf.capacity :=
    ⟨hload, by simpa using hsound.2⟩
  unfold Buffer.logChunk Buffer.growFor Buffer.store
  simp only [if_neg hfree, Option.bind_eq_bind, Option.bind_some, if_pos hinside]
  simp

/-- Keys for which nothing is logged leave the client as it is. -/
theorem typeKeys_quiet {keys : List Key} (hsound : client.Sound) (hload : 0 ≤ client.sent.load)
    (hkeys : ∀ key ∈ keys, key.logged compress = []) :
    typeKeys compress client keys = some (keys.map fun _ => client) := by
  induction keys with
  | nil => rfl
  | cons key keys ih =>
      obtain ⟨hkey, hrest⟩ := List.forall_mem_cons.1 hkeys
      unfold Key.logged at hkey
      cases compress with
      | false => cases hkey
      | true =>
          rw [if_pos rfl] at hkey
          have htype : typeKey true client key = some client := by
            rw [typeKey, if_pos rfl, hkey, logChunk_nil hsound.1 hload]
            rfl
          rw [typeKeys, htype, Option.bind_eq_bind, Option.bind_some, ih hrest]
          rfl

/-- The last of several equal states. -/
theorem getLastD_const {β : Type} (items : List β) (client : Client) :
    (items.map fun _ => client).getLastD client = client := by
  induction items with
  | nil => rfl
  | cons item items ih => rwa [List.map_cons, List.getLastD_cons]

/-- A round in which nothing is logged leaves the client as it is. -/
theorem round_quiet {poll : Poll} (hsound : client.Sound)
    (hload : 0 ≤ client.sent.load ∧ 0 ≤ client.recv.load) (hquiet : poll.Quiet compress) :
    ∃ states, round compress client poll = some (states, poll.ends compress) ∧
      ∀ state ∈ states, state = client := by
  have htype := typeKeys_quiet hsound hload.1 hquiet.1
  have hstates : ∀ state ∈ poll.keys.map (fun _ => client), state = client := by
    intro state hstate
    obtain ⟨key, -, heq⟩ := List.mem_map.1 hstate
    exact heq.symm
  have hlogged := hquiet.2
  have hends : ∀ {states : List Client} (exits : Bool),
      round compress client poll = some (states, exits) →
      round compress client poll = some (states, poll.ends compress) :=
    fun _ h => ends_of_round h ▸ h
  unfold Poll.logged at hlogged
  by_cases hhangup : poll.hangup = true
  · refine ⟨_, hends true ?_, hstates⟩
    simp only [round, htype, Option.bind_eq_bind, Option.bind_some, if_pos hhangup]
  · rw [if_neg hhangup] at hlogged
    cases hsocket : poll.socket with
    | none =>
        refine ⟨_, hends false ?_, hstates⟩
        simp only [round, htype, Option.bind_eq_bind, Option.bind_some, if_neg hhangup, hsocket]
    | some received =>
        rw [hsocket] at hlogged
        have hclosed : received.bytes = [] := hlogged
        refine ⟨poll.keys.map (fun _ => client) ++ [client], hends true ?_, ?_⟩
        · simp only [round, htype, Option.bind_eq_bind, Option.bind_some, if_neg hhangup, hsocket,
            getLastD_const, getServerData, if_pos hclosed]
        · rw [List.forall_mem_append, List.forall_mem_singleton]
          exact ⟨hstates, rfl⟩

/-- A run in which nothing is logged leaves the client as it is. -/
theorem mainLoop_quiet {polls : List Poll} (hsound : client.Sound)
    (hload : 0 ≤ client.sent.load ∧ 0 ≤ client.recv.load)
    (hquiet : ∀ poll ∈ executed compress polls, poll.Quiet compress) :
    ∃ states, mainLoop compress client polls = some states ∧ ∀ state ∈ states, state = client := by
  induction polls with
  | nil => exact ⟨[], rfl, fun _ hstate => absurd hstate List.not_mem_nil⟩
  | cons poll polls ih =>
      unfold executed at hquiet
      obtain ⟨hpoll, hrest⟩ := List.forall_mem_cons.1 hquiet
      obtain ⟨states, hround, hstates⟩ := round_quiet hsound hload hpoll
      rw [mainLoop, hround]
      simp only [Option.bind_eq_bind, Option.bind_some]
      by_cases hends : poll.ends compress = true
      · rw [if_pos hends]
        exact ⟨states, rfl, hstates⟩
      · rw [if_neg hends] at hrest ⊢
        obtain ⟨rest, hrun, hrestStates⟩ := ih hrest
        have hlast : states.getLastD client = client := by
          rcases List.eq_nil_or_concat' states with rfl | ⟨front, last, rfl⟩
          · rfl
          · rw [List.getLastD_concat]
            exact hstates last (List.mem_append_right _ List.mem_cons_self)
        rw [hlast, hrun]
        refine ⟨states ++ rest, rfl, ?_⟩
        rw [List.forall_mem_append]
        exact ⟨hstates, hrestStates⟩

/-- Exactly the runs that log nothing keep the buffers accounted for. -/
theorem safeRun_iff (compress : Bool) (polls : List Poll) :
    SafeRun compress polls ↔ ∀ poll ∈ executed compress polls, poll.Quiet compress := by
  constructor
  · intro hsafe
    obtain ⟨states, hrun, hsound⟩ := hsafe
    rw [List.forall_mem_cons] at hsound
    exact quiet_of_mainLoop hrun hsound.1 hsound.2
  · intro hquiet
    have hload : 0 ≤ Client.init.sent.load ∧ 0 ≤ Client.init.recv.load :=
      ⟨Int.le_refl 0, Int.le_refl 0⟩
    obtain ⟨states, hrun, hstates⟩ := mainLoop_quiet init_sound hload hquiet
    refine ⟨states, hrun, List.forall_mem_cons.2 ⟨init_sound, fun state hstate => ?_⟩⟩
    rw [hstates state hstate]
    exact init_sound

/-! ## Staying inside the arrays -/

/-- A computation has a result exactly if `fits`, and the result satisfies `post`. -/
def Succeeds {β : Type} (result : Option β) (fits : Prop) (post : β → Prop) : Prop :=
  (fits → ∃ b, result = some b ∧ post b) ∧ (¬ fits → result = none)

/-- A result. -/
theorem Succeeds.of_some {β : Type} {b : β} {fits : Prop} {post : β → Prop} (hfits : fits)
    (h : post b) : Succeeds (some b) fits post :=
  ⟨fun _ => ⟨b, rfl, h⟩, fun hnot => absurd hfits hnot⟩

/-- One computation after another. -/
theorem Succeeds.bind {β γ : Type} {result : Option β} {next : β → Option γ}
    {fits fits' both : Prop} {post : β → Prop} {post' : γ → Prop} (h : Succeeds result fits post)
    (hnext : ∀ b, post b → Succeeds (next b) fits' post') (hboth : both ↔ fits ∧ fits') :
    Succeeds (result.bind next) both post' := by
  refine ⟨fun hfit => ?_, fun hnot => ?_⟩
  · obtain ⟨hfits, hfits'⟩ := hboth.1 hfit
    obtain ⟨b, hb, hpost⟩ := h.1 hfits
    rw [hb]
    exact (hnext b hpost).1 hfits'
  · by_cases hfits : fits
    · obtain ⟨b, hb, hpost⟩ := h.1 hfits
      rw [hb]
      exact (hnext b hpost).2 fun hfits' => hnot (hboth.2 ⟨hfits, hfits'⟩)
    · rw [h.2 hfits]
      rfl

/-- What is known of every result. -/
theorem Succeeds.and_of_eq {β : Type} {result : Option β} {fits : Prop} {post post' : β → Prop}
    (h : Succeeds result fits post) (hpost : ∀ b, result = some b → post' b) :
    Succeeds result fits fun b => post b ∧ post' b := by
  refine ⟨fun hfits => ?_, h.2⟩
  obtain ⟨b, hb, hpostb⟩ := h.1 hfits
  exact ⟨b, hb, hpostb, hpost b hb⟩

/-- A computation and a result made from its own. -/
theorem Succeeds.bind_some {β γ : Type} {result : Option β} {fits : Prop} {post : β → Prop}
    {post' : γ → Prop} {f : β → γ} (h : Succeeds result fits post)
    (hpost : ∀ b, post b → post' (f b)) : Succeeds (result.bind fun b => some (f b)) fits post' :=
  h.bind (fun b hb => .of_some trivial (hpost b hb)) (iff_of_eq (and_true fits).symm)

/-- A buffer that has not grown, with this load. -/
def Buffer.Logged (buf : Buffer) (load : Nat) : Prop :=
  buf.capacity = readSize ∧ buf.avaliable = readSize ∧ buf.load = load ∧ load ≤ readSize

/-- Buffers that have not grown, with these loads. -/
def Client.Logged (client : Client) (sent recv : Nat) : Prop :=
  client.sent.Logged sent ∧ client.recv.Logged recv

/-- The bytes that are logged for some keys. -/
def sentBytes (compress : Bool) (keys : List Key) : List UInt8 :=
  keys.flatMap (Key.logged compress)

/-- The reads return, and zlib makes of them, at most `READ_SIZE` bytes. -/
def Poll.WithinReadSize (poll : Poll) : Prop :=
  (∀ key ∈ poll.keys, key.zip.length ≤ readSize) ∧ poll.logged.length ≤ readSize

variable {m n : Nat} {key : Key} {keys : List Key} {poll : Poll}

/-- A store is inside the array as long as there is room. -/
theorem store_logged (bytes : List UInt8) (h : buf.Logged m) :
    Succeeds (buf.store bytes) (m + bytes.length ≤ readSize) fun stored =>
      { stored with load := stored.load + bytes.length }.Logged (m + bytes.length) := by
  obtain ⟨hcapacity, hfree, hload, hle⟩ := h
  unfold Buffer.store
  refine ⟨fun hroom => ?_, fun hfull => ?_⟩
  · have hinside : 0 ≤ buf.load ∧ buf.load + (bytes.length : Int) ≤ buf.capacity := by omega
    rw [if_pos hinside]
    refine ⟨_, rfl, hcapacity, hfree, ?_, hroom⟩
    show buf.load + (bytes.length : Int) = (m + bytes.length : Nat)
    omega
  · have houtside : ¬ (0 ≤ buf.load ∧ buf.load + (bytes.length : Int) ≤ buf.capacity) := by omega
    rw [if_neg houtside]

/-- A chunk of at most `READ_SIZE` bytes does not make the buffer grow. -/
theorem logChunk_logged (h : buf.Logged m) (hsize : bytes.length ≤ readSize) :
    Succeeds (buf.logChunk bytes) (m + bytes.length ≤ readSize)
      (Buffer.Logged · (m + bytes.length)) := by
  have hfree : ¬ buf.avaliable < (bytes.length : Int) := by
    rw [h.2.1]
    omega
  unfold Buffer.logChunk Buffer.growFor
  simp only [if_neg hfree, Option.bind_eq_bind, Option.bind_some]
  exact (store_logged bytes h).bind_some fun _ hstored => hstored

/-- Neither does a single byte. -/
theorem logByte_logged (byte : UInt8) (h : buf.Logged m) :
    Succeeds (buf.logByte byte) (m + 1 ≤ readSize) (Buffer.Logged · (m + 1)) := by
  have hfree : buf.avaliable ≠ 0 := by
    rw [h.2.1]
    decide
  unfold Buffer.logByte
  simp only [if_neg hfree, Option.bind_eq_bind]
  exact (store_logged [byte] h).bind_some fun _ hstored => hstored

/-- A key is logged as long as there is room. -/
theorem typeKey_logged (h : client.Logged m n) (hsize : key.zip.length ≤ readSize) :
    Succeeds (typeKey compress client key) (m + (key.logged compress).length ≤ readSize)
      (Client.Logged · (m + (key.logged compress).length) n) := by
  unfold typeKey Key.logged
  cases compress with
  | true =>
      rw [if_pos rfl, if_pos rfl]
      exact (logChunk_logged h.1 hsize).bind_some fun _ hsent => ⟨hsent, h.2⟩
  | false =>
      rw [if_neg Bool.false_ne_true, if_neg Bool.false_ne_true]
      split
      all_goals
        exact (logByte_logged _ h.1).bind_some fun _ hsent => ⟨hsent, h.2⟩

/-- Keys are logged as long as there is room, by induction on the keys. -/
theorem typeKeys_logged (h : client.Logged m n) (hsize : ∀ key ∈ keys, key.zip.length ≤ readSize) :
    Succeeds (typeKeys compress client keys)
      (m + (sentBytes compress keys).length ≤ readSize) fun states =>
        (states.getLastD client).Logged (m + (sentBytes compress keys).length) n := by
  induction keys generalizing client m with
  | nil => exact .of_some h.1.2.2.2 h
  | cons key keys ih =>
      obtain ⟨hkey, hrest⟩ := List.forall_mem_cons.1 hsize
      have htotal : m + (sentBytes compress (key :: keys)).length =
          m + (key.logged compress).length + (sentBytes compress keys).length := by
        rw [sentBytes, List.flatMap_cons, List.length_append, sentBytes, Nat.add_assoc]
      rw [htotal]
      refine (typeKey_logged h hkey).bind (fun next hnext => ?_) (show _ ↔ _ ∧
        m + (key.logged compress).length + (sentBytes compress keys).length ≤ readSize by omega)
      refine (ih hnext hrest).bind_some fun states hstates => ?_
      rwa [List.getLastD_cons]

/-- A round logs as long as there is room. -/
theorem round_logged (h : client.Logged m n) (hsize : poll.WithinReadSize) :
    Succeeds (round compress client poll)
      (m + (sentBytes compress poll.keys).length ≤ readSize ∧
        n + poll.logged.length ≤ readSize) fun result =>
      (result.1.getLastD client).Logged (m + (sentBytes compress poll.keys).length)
        (n + poll.logged.length) := by
  obtain ⟨hkeys, hsocket⟩ := hsize
  unfold round
  refine (typeKeys_logged h hkeys).bind (fun states hstates => ?_) Iff.rfl
  unfold Poll.logged at hsocket ⊢
  split
  · exact .of_some hstates.2.2.2.2 hstates
  · next hhangup =>
    rw [if_neg hhangup] at hsocket
    cases hreceived : poll.socket with
    | none => exact .of_some hstates.2.2.2.2 hstates
    | some received =>
        rw [hreceived] at hsocket
        have hlog := logChunk_logged hstates.2 hsocket
        show Succeeds _ (n + received.bytes.length ≤ readSize) _
        have hdata : Succeeds (getServerData compress (states.getLastD client) received)
            (n + received.bytes.length ≤ readSize) fun result =>
            result.1.Logged (m + (sentBytes compress poll.keys).length)
              (n + received.bytes.length) := by
          unfold getServerData
          split
          · next hclosed =>
            rw [hclosed]
            exact .of_some hstates.2.2.2.2 hstates
          · exact hlog.bind_some fun recv hrecv => ⟨hstates.1, hrecv⟩
        refine hdata.bind_some fun result hresult => ?_
        rw [List.getLastD_concat]
        exact hresult

/-- The bytes of a run that are logged in `sent_buf`. -/
def totalSent (compress : Bool) (polls : List Poll) : List UInt8 :=
  (executed compress polls).flatMap fun poll => sentBytes compress poll.keys

/-- The bytes of a run that are logged in `recv_buf`. -/
def totalReceived (compress : Bool) (polls : List Poll) : List UInt8 :=
  (executed compress polls).flatMap Poll.logged

/-- A run logs as long as there is room, by induction on the rounds. -/
theorem mainLoop_logged {polls : List Poll} (h : client.Logged m n)
    (hsize : ∀ poll ∈ polls, poll.WithinReadSize) :
    Succeeds (mainLoop compress client polls)
      (m + (totalSent compress polls).length ≤ readSize ∧
        n + (totalReceived compress polls).length ≤ readSize) fun _ => True := by
  induction polls generalizing client m n with
  | nil => exact .of_some ⟨h.1.2.2.2, h.2.2.2.2⟩ trivial
  | cons poll polls ih =>
      obtain ⟨hpoll, hrest⟩ := List.forall_mem_cons.1 hsize
      have hround := (round_logged h hpoll).and_of_eq fun result (hresult :
        round compress client poll = some (result.1, result.2)) => ends_of_round hresult
      unfold totalSent totalReceived executed mainLoop
      simp only [List.flatMap_cons, List.length_append, ← Nat.add_assoc]
      cases hends : poll.ends compress with
      | true =>
          refine hround.bind (fun result hresult => ?_) (iff_of_eq (and_true _).symm)
          rw [if_pos (hresult.2.trans hends)]
          exact .of_some trivial trivial
      | false =>
          simp only [Bool.false_eq_true, if_false]
          refine hround.bind (fun result hresult => ?_) (show _ ↔ _ ∧
            m + (sentBytes compress poll.keys).length + (totalSent compress polls).length ≤
                readSize ∧
              n + poll.logged.length + (totalReceived compress polls).length ≤ readSize by
            unfold totalSent totalReceived
            omega)
          have hgo : result.2 = false := hresult.2.trans hends
          simp only [hgo, Bool.false_eq_true, if_false]
          exact (ih hresult.1 hrest).bind_some fun _ _ => trivial

/-- With reads of at most `READ_SIZE` bytes a run stays inside the arrays exactly if it logs at most
`READ_SIZE` bytes in each. -/
theorem mainLoop_isSome_iff (polls : List Poll) (hsize : ∀ poll ∈ polls, poll.WithinReadSize) :
    (mainLoop compress .init polls).isSome ↔ (totalSent compress polls).length ≤ readSize ∧
      (totalReceived compress polls).length ≤ readSize := by
  have hinit : Client.init.Logged 0 0 :=
    ⟨⟨rfl, rfl, rfl, Nat.zero_le _⟩, rfl, rfl, rfl, Nat.zero_le _⟩
  have hrun : Succeeds (mainLoop compress .init polls) _ _ := mainLoop_logged hinit hsize
  rw [Nat.zero_add, Nat.zero_add] at hrun
  constructor
  · intro hsome
    by_contra hnot
    rw [hrun.2 hnot] at hsome
    cases hsome
  · intro hfits
    obtain ⟨states, hstates, -⟩ := hrun.1 hfits
    rw [hstates]
    rfl

/-- A full read from the socket and one more byte. -/
def fullRead : List Poll :=
  [⟨[], false, some ⟨List.replicate readSize 0x61, []⟩⟩, ⟨[], false, some ⟨[0x61], []⟩⟩]

/-- The reads of this run are within `READ_SIZE`, but the last byte is stored behind the array. -/
theorem fullRead_overflows : (∀ poll ∈ fullRead, poll.WithinReadSize) ∧
    mainLoop false .init fullRead = none ∧ ¬ SafeRun false fullRead := by
  have hsize : ∀ poll ∈ fullRead, poll.WithinReadSize := by
    refine List.forall_mem_cons.2 ⟨⟨fun _ hkey => absurd hkey List.not_mem_nil, ?_⟩,
      List.forall_mem_singleton.2 ⟨fun _ hkey => absurd hkey List.not_mem_nil, ?_⟩⟩
    · show (List.replicate readSize (0x61 : UInt8)).length ≤ readSize
      exact Nat.le_of_eq List.length_replicate
    · show 1 ≤ readSize
      decide
  have hends : Poll.ends false ⟨[], false, some ⟨List.replicate readSize 0x61, []⟩⟩ = false := by
    have hne : List.replicate readSize (0x61 : UInt8) ≠ [] :=
      List.ne_nil_of_length_pos (by rw [List.length_replicate]; decide)
    have hshow : ctrlD ∉ List.replicate readSize (0x61 : UInt8) := fun hmem =>
      absurd (List.eq_of_mem_replicate hmem) (by decide)
    simp [Poll.ends, showsEnd, hne, hshow]
  have htotal : (totalReceived false fullRead).length = readSize + 1 := by
    simp [totalReceived, fullRead, executed, hends, Poll.logged]
  have hnone : mainLoop false .init fullRead = none := by
    rw [← Option.not_isSome_iff_eq_none, mainLoop_isSome_iff fullRead hsize, htotal]
    exact fun hfits => absurd hfits.2 (Nat.not_succ_le_self readSize)
  refine ⟨hsize, hnone, fun hsafe => ?_⟩
  obtain ⟨states, hrun, -⟩ := hsafe
  rw [hnone] at hrun
  cases hrun

end Coursework.LogClient
