import Coursework.RemoteShell.Program
import Coursework.Streams.FixedBlocks

/-!
# Inflating what was received

With `--compress`, `get_server_data` of `lab1b-client.c` and `echo_and_forwrd` of `lab1b-server.c`
call `inflate` in a loop until no input is left, with one `unzip_buf` for all the calls. Both are
`Process.read`, which differs in what becomes of the bytes. zlib is an `Inflater`. A call that
leaves input has filled the buffer, and then no further call takes any more (`le_of_inflateLoop`);
what inflate itself could not put out yet waits for the next read. `Fits` follows both over the
reads.
Vocabulary and scope: `Coursework.RemoteShell.Program`, `Coursework.Streams.Inflate`.
-/

namespace Coursework.RemoteShell

open LogClient Streams

variable {σ τ ρ : Type}

/-- What the loop around `inflate` ends with: the stream and `unzip_buf`, or `exit(1)`. -/
inductive Unzipped (τ : Type) where
  | bytes (inbound : τ) (unzipBuf : List UInt8)
  | exits

/-- Bytes in front of those in `unzip_buf`. -/
def Unzipped.behind (output : List UInt8) : Unzipped τ → Unzipped τ
  | .bytes inbound unzipBuf => .bytes inbound (output ++ unzipBuf)
  | .exits => .exits

/-- `do inflate while (avail_in > 0)`, with a bound on the calls. -/
def inflateLoop (zlib : Inflater τ UInt8) : Nat → τ → List UInt8 → Nat → Option (Unzipped τ)
  | 0, _, _, _ => none
  | calls + 1, inbound, nextIn, availOut =>
      let r := zlib.inflate inbound nextIn availOut
      if r.code = .streamError then some .exits
      else if r.rest.length > 0 then
        (inflateLoop zlib calls r.state r.rest (availOut - r.output.length)).map
          (Unzipped.behind r.output)
      else some (.bytes r.state r.output)

/-- What a process does with the bytes in `unzip_buf`, and how it ends. -/
structure Process (ρ : Type) where
  start : ρ
  handle : ρ → UInt8 → ρ
  output : ρ → List UInt8
  running : ρ → Bool
  exit : ρ → ρ
  /-- A read of no bytes ends the process. -/
  closes : Bool
  output_exit : ∀ r, output (exit r) = output r
  running_exit : ∀ r, running (exit r) = false
  handle_stopped : ∀ r byte, running r = false → handle r byte = r

/-- A process with its inflate stream, the bytes that its reads returned and the bytes that were in
`unzip_buf`. -/
structure Endpoint (τ ρ : Type) where
  inbound : τ
  received : List UInt8
  unzipped : List UInt8
  peer : ρ

namespace Process

variable (p : Process ρ) (zlib : Inflater τ UInt8) (calls : Nat)

/-- The process before its first read. -/
def init : Endpoint τ ρ :=
  ⟨zlib.inbound, [], [], p.start⟩

/-- A read with `--compress`. -/
def read (e : Endpoint τ ρ) (readBuf : List UInt8) : Option (Endpoint τ ρ) :=
  if p.closes = true ∧ readBuf = [] then some { e with peer := p.exit e.peer }
  else
    match inflateLoop zlib calls e.inbound readBuf readSize with
    | none => none
    | some .exits => some { e with peer := p.exit e.peer }
    | some (.bytes inbound unzipBuf) =>
        some
          { inbound := inbound
            received := e.received ++ readBuf
            unzipped := e.unzipped ++ unzipBuf
            peer := unzipBuf.foldl p.handle e.peer }

variable (receive : Nat → Endpoint τ ρ → List UInt8 → Option (Endpoint τ ρ))

/-- Reads one after another, as long as the process runs. -/
def run (e : Endpoint τ ρ) : List (List UInt8) → Option (Endpoint τ ρ)
  | [] => some e
  | readBuf :: reads =>
      if p.running e.peer then do
        let e ← receive calls e readBuf
        run e reads
      else some e

/-- Every byte that the received data stand for was in `unzip_buf` and handled once, in order, up to
one that ends the process. -/
structure Complete (plain : List UInt8 → List UInt8) (e : Endpoint τ ρ) : Prop where
  unzipped : e.unzipped = plain e.received ∨
    e.unzipped <+: plain e.received ∧ p.running (e.unzipped.foldl p.handle p.start) = false
  output : p.output e.peer = p.output ((plain e.received).foldl p.handle p.start)

/-- After the reads every loop has ended, a process that still runs has received everything, and
what was received is complete. -/
def Delivers (plain : List UInt8 → List UInt8) (reads : List (List UInt8)) : Prop :=
  ∃ calls e, p.run calls receive (p.init zlib) reads = some e ∧
    (p.running e.peer = true → e.received = reads.flatten) ∧ p.Complete plain e

/-- With `given` bytes put out for what was received, inflate can take each of the reads with room
for `READ_SIZE` bytes more, and at the end, unless a byte has ended the process, it has put out
everything. -/
def Fits (plain : List UInt8 → List UInt8) (needed : List UInt8 → Nat) (received : List UInt8)
    (given : Nat) : List (List UInt8) → Prop
  | [] => given = (plain received).length
  | readBuf :: reads =>
      if p.closes = true ∧ readBuf = [] then given = (plain received).length
      else
        needed (received ++ readBuf) ≤ given + readSize ∧
          let unzipped := (plain (received ++ readBuf)).take (given + readSize)
          (p.running (unzipped.foldl p.handle p.start) = true →
            Fits plain needed (received ++ readBuf) unzipped.length reads)

end Process

/-! ## The client and the server -/

/-- The terminal of the client, with what it displays of the bytes from the server; the line
`Bytes received` in front of those of a read is left out. -/
structure Terminal where
  running : Bool
  display : List UInt8

/-- The body of the loop over `unzip_buf` in `get_server_data`. -/
def Terminal.displayByte (t : Terminal) (byte : UInt8) : Terminal :=
  if !t.running then t
  else if byte = ctrlD then { t with running := false }
  else if byte = lfChar then { t with display := t.display ++ [crChar, lfChar] }
  else { t with display := t.display ++ [byte] }

/-- The client, which a read of no bytes ends. -/
def client : Process Terminal where
  start := ⟨true, []⟩
  handle := Terminal.displayByte
  output := Terminal.display
  running := Terminal.running
  exit t := { t with running := false }
  closes := true
  output_exit _ := rfl
  running_exit _ := rfl
  handle_stopped t byte h := by simp [Terminal.displayByte, h]

/-- `get_server_data`. -/
def getServerData (zlib : Inflater τ UInt8) (calls : Nat) (e : Endpoint τ Terminal)
    (readBuf : List UInt8) : Option (Endpoint τ Terminal) :=
  client.read zlib calls e readBuf

/-- The server, with its stream kept by the endpoint. -/
def server : Process (Server Unit) where
  start := ⟨(), true, true, []⟩
  handle := Server.forward
  output := Server.toShell
  running := Server.running
  exit s := { s with running := false }
  closes := false
  output_exit _ := rfl
  running_exit _ := rfl
  handle_stopped s byte h := by simp [Server.forward, h]

/-- The part of `echo_and_forwrd` for a packet from the socket. -/
def echoAndForwrd (zlib : Inflater τ UInt8) (calls : Nat) (e : Endpoint τ (Server Unit))
    (readBuf : List UInt8) : Option (Endpoint τ (Server Unit)) :=
  server.read zlib calls e readBuf

/-! ## The loop -/

section Loop

variable {zlib : Inflater τ UInt8} {Valid : List UInt8 → Prop} {plain : List UInt8 → List UInt8}
variable {needed : List UInt8 → Nat} {At : τ → List UInt8 → List UInt8 → Prop}
variable {s : τ} {consumed given nextIn : List UInt8} {calls availOut : Nat}

/-- A loop that ends has had room for the bytes that are needed, by induction on the calls: what
a call puts out is taken from the room of the next one. -/
theorem le_of_inflateLoop (hzlib : zlib.Decompresses Valid plain needed At) {u : Unzipped τ}
    (hat : At s consumed given) (hvalid : Valid (consumed ++ nextIn))
    (h : inflateLoop zlib calls s nextIn availOut = some u) :
    needed (consumed ++ nextIn) ≤ given.length + availOut := by
  induction calls generalizing s consumed given nextIn availOut u with
  | zero => cases h
  | succ calls ih =>
      obtain ⟨hroom, hcode, used, hinput, hnext⟩ := hzlib.call s consumed given nextIn availOut
        hat hvalid
      unfold inflateLoop at h
      simp only at h
      rw [if_neg hcode] at h
      split at h
      · obtain ⟨v, hloop, rfl⟩ := Option.map_eq_some_iff.1 h
        have hsplit : consumed ++ nextIn =
            (consumed ++ used) ++ (zlib.inflate s nextIn availOut).rest := by
          rw [List.append_assoc, ← hinput]
        rw [hsplit] at hvalid ⊢
        have hneeded := ih hnext hvalid hloop
        rw [List.length_append] at hneeded
        omega
      · next hnone =>
        have hrest : (zlib.inflate s nextIn availOut).rest = [] :=
          List.length_eq_zero_iff.1 (Nat.eq_zero_of_not_pos hnone)
        exact (hzlib.takes s consumed given nextIn availOut hat hvalid).1 hrest

/-- With room for the bytes that are needed the first call is the last. -/
theorem inflateLoop_eq (hzlib : zlib.Decompresses Valid plain needed At)
    (hat : At s consumed given) (hvalid : Valid (consumed ++ nextIn))
    (hneeded : needed (consumed ++ nextIn) ≤ given.length + availOut) :
    ∃ s' unzipBuf,
      (∀ calls, inflateLoop zlib (calls + 1) s nextIn availOut = some (.bytes s' unzipBuf)) ∧
      At s' (consumed ++ nextIn) (given ++ unzipBuf) ∧
      given ++ unzipBuf = (plain (consumed ++ nextIn)).take (given.length + availOut) := by
  obtain ⟨-, hcode, used, hinput, hnext⟩ := hzlib.call s consumed given nextIn availOut hat hvalid
  have hrest := (hzlib.takes s consumed given nextIn availOut hat hvalid).2 hneeded
  have hfills := hzlib.fills s consumed given nextIn availOut hat hvalid hrest
  rw [hrest, List.append_nil] at hinput
  subst hinput
  refine ⟨_, _, fun calls => ?_, hnext, hfills⟩
  unfold inflateLoop
  simp only
  rw [if_neg hcode, hrest]
  rfl

end Loop

/-! ## Runs -/

namespace Process

variable {p : Process ρ} {zlib : Inflater τ UInt8} {calls : Nat}
variable {e e' : Endpoint τ ρ} {readBuf : List UInt8} {reads : List (List UInt8)}
variable {Valid : List UInt8 → Prop} {plain : List UInt8 → List UInt8}
variable {needed : List UInt8 → Nat} {At : τ → List UInt8 → List UInt8 → Prop}

/-- The stream has consumed what was received, and the process has handled what was in
`unzip_buf`. -/
structure Reading (p : Process ρ) (At : τ → List UInt8 → List UInt8 → Prop) (e : Endpoint τ ρ) :
    Prop where
  stream : At e.inbound e.received e.unzipped
  peer : e.peer = e.unzipped.foldl p.handle p.start

/-- A process that does not run reads nothing more. -/
theorem run_stopped (h : p.running e.peer = false) :
    p.run calls (p.read zlib) e reads = some e := by
  cases reads with
  | nil => rfl
  | cons readBuf reads => rw [run, if_neg (Bool.eq_false_iff.1 h)]

/-- A process that was ended handles no byte. -/
theorem foldl_stopped {r : ρ} (h : p.running r = false) (bytes : List UInt8) :
    bytes.foldl p.handle r = r := by
  induction bytes with
  | nil => rfl
  | cons byte bytes ih => rw [List.foldl_cons, p.handle_stopped r byte h, ih]

/-- What was received is complete exactly if it was put out, as long as no byte has ended the
process. -/
theorem Reading.complete_iff (hzlib : zlib.Decompresses Valid plain needed At)
    (h : p.Reading At e) (hrunning : p.running e.peer = true) :
    p.Complete plain e ↔ e.unzipped.length = (plain e.received).length := by
  have hpeer := h.peer
  constructor
  · intro hcomplete
    rcases hcomplete.unzipped with hall | ⟨-, hstopped⟩
    · rw [hall]
    · rw [← hpeer, hrunning] at hstopped
      cases hstopped
  · intro hlength
    have hall := (hzlib.given _ _ _ h.stream).eq_of_length hlength
    exact ⟨.inl hall, by rw [hpeer, ← hall]⟩

/-- What was received is complete when a byte has ended the process. -/
theorem Reading.complete (hzlib : zlib.Decompresses Valid plain needed At)
    (h : p.Reading At e) (hstopped : p.running e.peer = false) : p.Complete plain e := by
  have hbeginning := hzlib.given _ _ _ h.stream
  rw [h.peer] at hstopped
  refine ⟨.inr ⟨hbeginning, hstopped⟩, ?_⟩
  obtain ⟨rest, hrest⟩ := hbeginning
  rw [← hrest, List.foldl_append, foldl_stopped hstopped, h.peer]

/-- A read of no bytes is the end for a process that it closes. -/
theorem Reading.complete_exit (hzlib : zlib.Decompresses Valid plain needed At)
    (h : p.Reading At e) (hrunning : p.running e.peer = true) :
    p.Complete plain { e with peer := p.exit e.peer } ↔
      e.unzipped.length = (plain e.received).length := by
  rw [← h.complete_iff hzlib hrunning]
  exact ⟨fun hcomplete => ⟨hcomplete.unzipped, (p.output_exit _).symm.trans hcomplete.output⟩,
    fun hcomplete => ⟨hcomplete.unzipped, (p.output_exit _).trans hcomplete.output⟩⟩

theorem read_exit (hclose : p.closes = true ∧ readBuf = []) :
    p.read zlib calls e readBuf = some { e with peer := p.exit e.peer } :=
  if_pos hclose

/-- A read that ends has had room for the bytes that are needed. -/
theorem Reading.le_of_read (hzlib : zlib.Decompresses Valid plain needed At)
    (h : p.Reading At e) (hvalid : Valid (e.received ++ readBuf))
    (hclose : ¬ (p.closes = true ∧ readBuf = []))
    (hread : p.read zlib calls e readBuf = some e') :
    needed (e.received ++ readBuf) ≤ e.unzipped.length + readSize := by
  rw [Process.read, if_neg hclose] at hread
  split at hread
  · cases hread
  · next hloop => exact le_of_inflateLoop hzlib h.stream hvalid hloop
  · next hloop => exact le_of_inflateLoop hzlib h.stream hvalid hloop

/-- With this room a read puts out as much as it can, and the process handles it. -/
theorem Reading.read_eq (hzlib : zlib.Decompresses Valid plain needed At)
    (h : p.Reading At e) (hvalid : Valid (e.received ++ readBuf))
    (hclose : ¬ (p.closes = true ∧ readBuf = []))
    (hneeded : needed (e.received ++ readBuf) ≤ e.unzipped.length + readSize) :
    ∃ e', (∀ calls, p.read zlib (calls + 1) e readBuf = some e') ∧ p.Reading At e' ∧
      e'.received = e.received ++ readBuf ∧
      e'.unzipped = (plain (e.received ++ readBuf)).take (e.unzipped.length + readSize) := by
  obtain ⟨s', unzipBuf, hloop, hat, hfills⟩ := inflateLoop_eq hzlib h.stream hvalid hneeded
  refine ⟨⟨s', e.received ++ readBuf, e.unzipped ++ unzipBuf, unzipBuf.foldl p.handle e.peer⟩,
    fun calls => ?_, ⟨hat, ?_⟩, rfl, hfills⟩
  · rw [Process.read, if_neg hclose, hloop calls]
  · show unzipBuf.foldl p.handle e.peer = (e.unzipped ++ unzipBuf).foldl p.handle p.start
    rw [List.foldl_append, ← h.peer]

/-- A run of reads that fit ends with one call for each, by induction on the reads. -/
theorem Reading.run_of_fits (hzlib : zlib.Decompresses Valid plain needed At)
    (h : p.Reading At e) (hrunning : p.running e.peer = true)
    (hvalid : Valid (e.received ++ reads.flatten))
    (hfits : p.Fits plain needed e.received e.unzipped.length reads) :
    ∃ e', p.run 1 (p.read zlib) e reads = some e' ∧
      (p.running e'.peer = true → e'.received = e.received ++ reads.flatten) ∧
      p.Complete plain e' := by
  induction reads generalizing e with
  | nil =>
      exact ⟨e, rfl, fun _ => by simp, (h.complete_iff hzlib hrunning).2 hfits⟩
  | cons readBuf reads ih =>
      rw [Fits] at hfits
      rw [run, if_pos hrunning]
      split at hfits
      · next hclose =>
        refine ⟨{ e with peer := p.exit e.peer }, ?_, fun hrun => ?_,
          (h.complete_exit hzlib hrunning).2 hfits⟩
        · rw [read_exit hclose]
          exact run_stopped (p.running_exit _)
        · rw [p.running_exit] at hrun
          cases hrun
      · next hclose =>
        rw [List.flatten_cons, ← List.append_assoc] at hvalid ⊢
        obtain ⟨e₁, hread, hreading, hreceived, hunzipped⟩ :=
          h.read_eq hzlib (hzlib.beginning _ _ hvalid) hclose hfits.1
        have hrest := hfits.2
        simp only at hrest
        rw [← hunzipped, ← hreceived, ← hreading.peer] at hrest
        rw [hread 0, ← hreceived]
        rw [← hreceived] at hvalid
        cases hrun : p.running e₁.peer with
        | true => exact ih hreading hrun hvalid (hrest hrun)
        | false =>
            refine ⟨e₁, run_stopped hrun, fun hnot => ?_, hreading.complete hzlib hrun⟩
            rw [hrun] at hnot
            cases hnot

/-- The reads of a run that is complete at its end fit. -/
theorem Reading.fits_of_run (hzlib : zlib.Decompresses Valid plain needed At)
    (h : p.Reading At e) (hrunning : p.running e.peer = true)
    (hvalid : Valid (e.received ++ reads.flatten))
    (hrun : p.run calls (p.read zlib) e reads = some e') (hcomplete : p.Complete plain e') :
    p.Fits plain needed e.received e.unzipped.length reads := by
  induction reads generalizing e with
  | nil =>
      cases hrun
      exact (h.complete_iff hzlib hrunning).1 hcomplete
  | cons readBuf reads ih =>
      rw [run, if_pos hrunning] at hrun
      obtain ⟨mid, hread, hrest⟩ := Option.bind_eq_some_iff.1 hrun
      rw [Fits]
      split
      · next hclose =>
        rw [read_exit hclose] at hread
        cases hread
        rw [run_stopped (p.running_exit _)] at hrest
        cases hrest
        exact (h.complete_exit hzlib hrunning).1 hcomplete
      · next hclose =>
        rw [List.flatten_cons, ← List.append_assoc] at hvalid
        have hstart := hzlib.beginning _ _ hvalid
        have hneeded := h.le_of_read hzlib hstart hclose hread
        obtain ⟨e₁, hread₁, hreading, hreceived, hunzipped⟩ :=
          h.read_eq hzlib hstart hclose hneeded
        -- no loop ends without a call
        obtain ⟨calls, rfl⟩ : ∃ n, calls = n + 1 := by
          refine Nat.exists_eq_add_one_of_ne_zero fun hzero => ?_
          rw [hzero, Process.read, if_neg hclose] at hread
          cases hread
        obtain rfl := Option.some.inj ((hread₁ calls).symm.trans hread)
        refine ⟨hneeded, ?_⟩
        simp only
        rw [← hunzipped, ← hreceived, ← hreading.peer]
        rw [← hreceived] at hvalid
        exact fun hagain => ih hreading hagain hvalid hrest

/-- The reads deliver if and only if they fit. -/
theorem delivers_iff (hzlib : zlib.Decompresses Valid plain needed At)
    (hstart : p.running p.start = true) (hvalid : Valid reads.flatten) :
    p.Delivers zlib (p.read zlib) plain reads ↔ p.Fits plain needed [] 0 reads := by
  have hreading : p.Reading At (p.init zlib) := ⟨hzlib.start, rfl⟩
  constructor
  · intro h
    obtain ⟨calls, e, hrun, -, hcomplete⟩ := h
    exact hreading.fits_of_run hzlib hstart hvalid hrun hcomplete
  · intro hfits
    exact ⟨1, hreading.run_of_fits hzlib hstart hvalid hfits⟩

end Process

/-- The client and the server deliver if and only if inflate can take each read with room for
`READ_SIZE` bytes and has put out everything at the end. -/
theorem inflating_delivers_iff {zlib : Inflater τ UInt8} {Valid : List UInt8 → Prop}
    {plain : List UInt8 → List UInt8} {needed : List UInt8 → Nat}
    {At : τ → List UInt8 → List UInt8 → Prop} (hzlib : zlib.Decompresses Valid plain needed At)
    {reads : List (List UInt8)} (hvalid : Valid reads.flatten) :
    (client.Delivers zlib (getServerData zlib) plain reads ↔
        client.Fits plain needed [] 0 reads) ∧
      (server.Delivers zlib (echoAndForwrd zlib) plain reads ↔
        server.Fits plain needed [] 0 reads) :=
  ⟨Process.delivers_iff hzlib rfl hvalid, Process.delivers_iff hzlib rfl hvalid⟩

/-- The flood in two reads is delivered: the bytes of the first one that do not fit `unzip_buf` are
put out in the second one. -/
theorem flood_in_parts_delivered :
    client.Delivers FixedBlocks.inflater (getServerData FixedBlocks.inflater) FixedBlocks.plain
      [FixedBlocks.opening 7 ++ FixedBlocks.lastRepetitions, FixedBlocks.closing] := by
  refine (inflating_delivers_iff FixedBlocks.inflater_decompresses trivial).1.2 ?_
  have hfirst : (FixedBlocks.plain (FixedBlocks.opening 7 ++ FixedBlocks.lastRepetitions)).length =
      16513 := by
    have hend : (feed FixedBlocks.inflateByte FixedBlocks.repeating
        FixedBlocks.lastRepetitions).2.length = 2064 := by decide +kernel
    rw [FixedBlocks.plain_opening, hend]
  have hall : (FixedBlocks.plain (FixedBlocks.flood 7)).length = 16513 :=
    FixedBlocks.plain_flood 7
  rw [Process.Fits, if_neg (by simp [FixedBlocks.lastRepetitions])]
  refine ⟨?_, fun _ => ?_⟩
  · rw [List.nil_append, FixedBlocks.needed_block]
    decide
  · rw [Process.Fits, if_neg (by simp [FixedBlocks.closing]), List.nil_append, List.length_take,
      hfirst]
    refine ⟨?_, fun _ => ?_⟩
    · show FixedBlocks.needed (FixedBlocks.flood 7) ≤ _
      rw [FixedBlocks.needed_flood]
      decide
    · show (List.take _ (FixedBlocks.plain (FixedBlocks.flood 7))).length =
        (FixedBlocks.plain (FixedBlocks.flood 7)).length
      rw [List.length_take, hall]
      decide

/-- The loop for the flood in one read does not end. -/
theorem inflateLoop_flood (calls : Nat) : inflateLoop FixedBlocks.inflater calls
    FixedBlocks.inflater.inbound (FixedBlocks.flood 7) readSize = none := by
  refine Option.eq_none_iff_forall_not_mem.2 fun u hloop => ?_
  have hneeded := le_of_inflateLoop FixedBlocks.inflater_decompresses
    FixedBlocks.inflater_decompresses.start trivial hloop
  rw [List.nil_append, FixedBlocks.needed_flood] at hneeded
  exact absurd hneeded (by decide)

/-- A process whose loop does not end has not read. -/
theorem read_flood (p : Process ρ) (calls : Nat) :
    p.read FixedBlocks.inflater calls (p.init FixedBlocks.inflater) (FixedBlocks.flood 7) =
      none := by
  unfold Process.read
  rw [if_neg fun h => List.cons_ne_nil _ _ h.2]
  have hloop : inflateLoop FixedBlocks.inflater calls (p.init FixedBlocks.inflater).inbound
      (FixedBlocks.flood 7) readSize = none := inflateLoop_flood calls
  rw [hloop]

/-- A packet of `113` bytes stands for more than `READ_SIZE` bytes. The loop of neither side ends,
and the packet is not delivered. -/
theorem flood_not_delivered : (FixedBlocks.flood 7).length = 113 ∧
    (FixedBlocks.plain (FixedBlocks.flood 7)).length = 16513 ∧
    (¬ ∃ calls e, getServerData FixedBlocks.inflater calls (client.init FixedBlocks.inflater)
      (FixedBlocks.flood 7) = some e) ∧
    (¬ ∃ calls e, echoAndForwrd FixedBlocks.inflater calls (server.init FixedBlocks.inflater)
      (FixedBlocks.flood 7) = some e) ∧
    ¬ client.Delivers FixedBlocks.inflater (getServerData FixedBlocks.inflater) FixedBlocks.plain
      [FixedBlocks.flood 7] := by
  refine ⟨by decide, FixedBlocks.plain_flood 7, fun h => ?_, fun h => ?_, fun h => ?_⟩
  · obtain ⟨calls, e, h⟩ := h
    cases (read_flood client calls).symm.trans h
  · obtain ⟨calls, e, h⟩ := h
    cases (read_flood server calls).symm.trans h
  · obtain ⟨calls, e, hrun, -⟩ := h
    have hread : (client.read FixedBlocks.inflater calls (client.init FixedBlocks.inflater)
        (FixedBlocks.flood 7)).bind some = some e := hrun
    rw [read_flood] at hread
    cases hread

end Coursework.RemoteShell
