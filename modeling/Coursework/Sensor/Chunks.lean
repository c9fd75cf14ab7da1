import Coursework.Sensor.Bounds

/-!
# The commands of the command loop

The strings for which `exec_cmd` is called. They are the lines of the input, whatever the reads are
that it comes in, and `commands_eq` says this of any two runs.
Vocabulary and scope: `Coursework.Sensor.Commands`, `Coursework.Sensor.Bounds`.
-/

namespace Coursework.Sensor

abbrev Buffer := Vector UInt8 32

/-- `cmd_str` in the call of `exec_cmd` for a byte, if there is one. -/
def called (s : Loop) (byte : UInt8) : Option Buffer :=
  if byte = newline then
    match s.store byte with
    | .ok s => match s.store 0 with
      | .ok s => some s.cmdStr
      | .error _ => none
    | .error _ => none
  else none

/-- `cmd_str` in the calls of `exec_cmd` for some bytes. -/
def callsOfBytes (behind : Nat → Bytes) : Loop → Bytes → List Buffer
  | _, [] => []
  | s, byte :: bytes =>
      (called s byte).toList ++
        match readByte behind s byte with
        | .ok s => callsOfBytes behind s bytes
        | .error _ => []

/-- `cmd_str` in the calls of `exec_cmd` in a round of the main loop. -/
def callsOfRound (behind : Nat → Bytes) (s : Loop) : ReadResult → List Buffer
  | .failed _ => []
  | .data bytes _ => callsOfBytes behind s bytes

/-- `cmd_str` in all calls of `exec_cmd`. -/
def calls (behind : Nat → Bytes) : Loop → List ReadResult → List Buffer
  | _, [] => []
  | s, read :: reads =>
      callsOfRound behind s read ++
        match round behind s read with
        | .ok s => calls behind s reads
        | .error _ => []

/-- The strings for which `exec_cmd` is called. -/
def commands (behind : Nat → Bytes) (s : Loop) (reads : List ReadResult) : List Bytes :=
  (calls behind s reads).map fun cmdStr => cString cmdStr.toList

instance (behind text : Bytes) : Decidable (IsFinal behind text) :=
  inferInstanceAs (Decidable (_ ∨ _))

/-- The lines that are complete, up to the first one that ends the program. -/
def upToFinal (behind : Nat → Bytes) : Nat → List Bytes → List Bytes
  | _, [] => []
  | _, [_] => []
  | executed, line :: next :: lines =>
      line :: if IsFinal (behind executed) (cString line) then []
        else upToFinal behind (executed + 1) (next :: lines)

/-- The buffer holds the line and its end. -/
def HoldsLine (cmdStr : Buffer) (line : Bytes) : Prop :=
  ∃ stale, cmdStr.toList = line ++ 0 :: stale

variable {behind : Nat → Bytes} {s : Loop} {line : Bytes}

/-! ## The calls are those of the loop -/

/-- A store changes `cmd_str` only. -/
theorem Loop.eq_of_store {s' : Loop} {byte : UInt8} (h : s.store byte = .ok s') :
    s' = { s with cmdStr := s'.cmdStr } := by
  unfold Loop.store at h
  split_ifs at h
  cases h
  rfl

/-- Without a call the settings stay. -/
theorem readByte_of_not_called {byte : UInt8} {s' : Loop} (h : called s byte = none)
    (hread : readByte behind s byte = .ok s') :
    s'.settings = s.settings ∧ s'.executed = s.executed := by
  rw [called] at h
  rw [readByte] at hread
  cases hstore : s.store byte with
  | error stop =>
      rw [hstore] at hread
      cases hread
  | ok stored =>
      rw [hstore] at h hread
      have hstored := Loop.eq_of_store hstore
      simp only [bind, Except.bind, pure, Except.pure] at h hread
      split_ifs at h hread with hnewline
      · cases hend : stored.store 0 with
        | error stop =>
            rw [hend] at hread
            cases hread
        | ok ended =>
            rw [hend] at h
            cases h
      · cases hread
        rw [hstored]
        exact ⟨rfl, rfl⟩

/-- With a call they are what `exec_cmd` makes of them. -/
theorem readByte_of_called {byte : UInt8} {cmdStr : Buffer} (h : called s byte = some cmdStr) :
    readByte behind s byte = (execCmd (behind s.executed) s.settings cmdStr).map fun settings =>
      ⟨cmdStr, -1 + 1, settings, s.executed + 1⟩ := by
  rw [called] at h
  split_ifs at h with hnewline
  rw [readByte]
  cases hstore : s.store byte with
  | error stop =>
      rw [hstore] at h
      cases h
  | ok stored =>
      rw [hstore] at h
      have hstored := Loop.eq_of_store hstore
      cases hend : stored.store 0 with
      | error stop =>
          simp only [hend] at h
          cases h
      | ok ended =>
          simp only [hend] at h
          obtain rfl : ended.cmdStr = cmdStr := Option.some.inj h
          have hended := Loop.eq_of_store hend
          rw [hstored] at hended
          simp only [bind, Except.bind, pure, Except.pure, if_pos hnewline, hend]
          rw [hended]
          rfl

/-- A byte behind which the run goes on: the settings stay, or a command is executed. -/
theorem readByte_cases {byte : UInt8} {s' : Loop} (hread : readByte behind s byte = .ok s') :
    (called s byte = none ∧ s'.settings = s.settings ∧ s'.executed = s.executed) ∨
      ∃ cmdStr, called s byte = some cmdStr ∧
        execCmd (behind s.executed) s.settings cmdStr = .ok s'.settings ∧
        s'.executed = s.executed + 1 := by
  cases hcalled : called s byte with
  | none => exact .inl ⟨rfl, readByte_of_not_called hcalled hread⟩
  | some cmdStr =>
      rw [readByte_of_called hcalled] at hread
      cases hexec : execCmd (behind s.executed) s.settings cmdStr with
      | error stop =>
          rw [hexec] at hread
          cases hread
      | ok settings =>
          rw [hexec] at hread
          cases hread
          exact .inr ⟨cmdStr, rfl, hexec, rfl⟩

/-! ## The calls for bytes -/

theorem called_of_ne {byte : UInt8} (h : byte ≠ newline) : called s byte = none :=
  if_neg h

/-- The call for a newline. -/
theorem called_newline (h : s.Holds line) (hlength : line.length < 32) :
    ∃ cmdStr, called s newline = some cmdStr ∧ HoldsLine cmdStr line := by
  obtain ⟨cmdStr, hstore, stale, hcmd⟩ := h.store hlength newline
  obtain ⟨cmdStr', hstore', stale', hcmd'⟩ := (h.of_store hcmd).store hlength 0
  refine ⟨cmdStr', ?_, stale', hcmd'⟩
  rw [called, if_pos rfl, hstore]
  simp only [hstore']

/-- The lines that are complete if the first one is. -/
theorem upToFinal_newline (behind : Nat → Bytes) (executed : Nat) (hline : newline ∉ line)
    (bytes : Bytes) :
    upToFinal behind executed ((line ++ newline :: bytes).splitOn newline) =
      line :: if IsFinal (behind executed) (cString line) then []
        else upToFinal behind (executed + 1) (bytes.splitOn newline) := by
  rw [List.splitOn_append_cons_self_of_not_mem hline]
  cases hsplit : bytes.splitOn newline with
  | nil => exact absurd hsplit (List.splitOn_ne_nil _ _)
  | cons next lines => rfl

/-- The calls for the bytes behind an unfinished line are for the lines that they complete, by
induction on the bytes. -/
theorem callsOfBytes_holdsLine (h : s.Holds line) (hline : newline ∉ line) (bytes : Bytes)
    (hfit : ∀ l ∈ (line ++ bytes).splitOn newline, l.length ≤ 31) :
    List.Forall₂ HoldsLine (callsOfBytes behind s bytes)
      (upToFinal behind s.executed ((line ++ bytes).splitOn newline)) := by
  induction bytes generalizing s line with
  | nil =>
      rw [List.append_nil, List.splitOn_eq_singleton hline]
      exact .nil
  | cons byte bytes ih =>
      have hlength : line.length < 32 := by
        obtain ⟨more, lines, hsplit⟩ := splitOn_append hline (byte :: bytes)
        have hmore := hfit (line ++ more) (by rw [hsplit]; exact List.mem_cons_self)
        rw [List.length_append] at hmore
        omega
      by_cases hnewline : byte = newline
      · subst hnewline
        obtain ⟨cmdStr, hcalled, hholds⟩ := called_newline h hlength
        rw [upToFinal_newline behind s.executed hline, callsOfBytes, hcalled]
        refine .cons hholds ?_
        rcases readByte_newline behind h hlength with
          ⟨hfinal, hread⟩ | ⟨hfinal, s', hread, hs', hexecuted⟩
        · rw [if_pos hfinal, hread]
          exact .nil
        · rw [List.splitOn_append_cons_self_of_not_mem hline] at hfit
          have hrest := ih hs' List.not_mem_nil (List.forall_mem_cons.1 hfit).2
          rw [if_neg hfinal, hread, ← hexecuted]
          exact hrest
      · obtain ⟨s', hread, hs', hexecuted⟩ := readByte_of_ne behind h hlength hnewline
        have hlonger : newline ∉ line ++ [byte] := by simpa [hline] using Ne.symm hnewline
        have hsame : line ++ byte :: bytes = line ++ [byte] ++ bytes := by simp
        rw [callsOfBytes, called_of_ne hnewline, hread, hsame, ← hexecuted]
        rw [hsame] at hfit
        exact ih hs' hlonger hfit

/-! ## The calls in a run -/

theorem callsOfBytes_append (bytes bytes' : Bytes) :
    callsOfBytes behind s (bytes ++ bytes') = callsOfBytes behind s bytes ++
      match bytes.foldlM (readByte behind) s with
      | .ok s => callsOfBytes behind s bytes'
      | .error _ => [] := by
  induction bytes generalizing s with
  | nil => rfl
  | cons byte bytes ih =>
      rw [List.cons_append, callsOfBytes, callsOfBytes, List.foldlM_cons, List.append_assoc]
      cases readByte behind s byte with
      | error stop => rfl
      | ok s' => exact congrArg _ ih

/-- The calls do not depend on the reads in which the bytes come. -/
theorem calls_eq (s : Loop) (reads : List ReadResult) :
    calls behind s reads = callsOfBytes behind s (typed reads) := by
  induction reads generalizing s with
  | nil => rfl
  | cons read reads ih =>
      rw [calls]
      cases read with
      | failed again =>
          cases again with
          | true => exact ih s
          | false => rfl
      | data bytes length_le =>
          rw [typed, callsOfBytes_append]
          show callsOfBytes behind s bytes ++ (match bytes.foldlM (readByte behind) s with
            | .ok s => calls behind s reads
            | .error _ => []) = _
          cases bytes.foldlM (readByte behind) s with
          | error stop => rfl
          | ok s' => exact congrArg _ (ih s')

/-! ## The commands -/

/-- The string in the buffer does not depend on what is behind the line. -/
theorem cString_of_holdsLine {cmdStr : Buffer} (h : HoldsLine cmdStr line) :
    cString cmdStr.toList = cString line := by
  obtain ⟨stale, hstale⟩ := h
  obtain ⟨hzero, stale', hsplit⟩ := exists_stale line stale
  rw [hstale, hsplit, cString_append hzero]

/-- The calls in a run whose lines fit. -/
theorem calls_holdsLine (behind : Nat → Bytes) (cmdStr : Buffer) (settings : Settings)
    {reads : List ReadResult} (hfit : ∀ l ∈ (typed reads).splitOn newline, l.length ≤ 31) :
    List.Forall₂ HoldsLine (calls behind (.start cmdStr settings) reads)
      (upToFinal behind 0 ((typed reads).splitOn newline)) := by
  have hstart : Loop.Holds [] (.start cmdStr settings) := ⟨rfl, Nat.zero_le _, rfl⟩
  rw [calls_eq]
  exact callsOfBytes_holdsLine hstart List.not_mem_nil (typed reads) hfit

theorem commands_eq_map (behind : Nat → Bytes) (cmdStr : Buffer) (settings : Settings)
    {reads : List ReadResult} (hfit : ∀ l ∈ (typed reads).splitOn newline, l.length ≤ 31) :
    commands behind (.start cmdStr settings) reads =
      (upToFinal behind 0 ((typed reads).splitOn newline)).map cString := by
  have hcalls := calls_holdsLine behind cmdStr settings hfit
  rw [commands]
  generalize calls behind (.start cmdStr settings) reads = buffers at *
  generalize upToFinal behind 0 _ = lines at *
  induction hcalls with
  | nil => rfl
  | cons hholds _ ih => rw [List.map_cons, List.map_cons, cString_of_holdsLine hholds, ih]

/-- The lines up to a final one are the first complete lines. -/
theorem upToFinal_dropLast (behind : Nat → Bytes) (executed : Nat) (lines : List Bytes) :
    upToFinal behind executed lines <+: lines.dropLast := by
  induction lines generalizing executed with
  | nil => exact List.nil_prefix
  | cons line lines ih =>
      cases lines with
      | nil => exact List.nil_prefix
      | cons next lines =>
          rw [upToFinal, List.dropLast_cons_cons]
          split_ifs
          · exact (List.cons_prefix_cons).2 ⟨rfl, List.nil_prefix⟩
          · exact (List.cons_prefix_cons).2 ⟨rfl, ih (executed + 1)⟩

/-- In any two runs with the same input, all of whose lines fit, `exec_cmd` is called for the same
strings. These are the complete lines up to the first one that ends the program, and what is behind
them in the buffer plays no part. If the bytes behind `temp_pd` are others, a `PERIOD` command may
end one of the runs earlier. -/
theorem commands_eq {reads reads' : List ReadResult} (htyped : typed reads' = typed reads)
    (hfit : ∀ l ∈ (typed reads).splitOn newline, l.length ≤ 31) (behind behind' : Nat → Bytes)
    (cmdStr cmdStr' : Buffer) (settings settings' : Settings) :
    List.Forall₂ HoldsLine (calls behind (.start cmdStr settings) reads)
        (upToFinal behind 0 ((typed reads).splitOn newline)) ∧
      commands behind (.start cmdStr settings) reads =
        (upToFinal behind 0 ((typed reads).splitOn newline)).map cString ∧
      commands behind (.start cmdStr' settings') reads' =
        commands behind (.start cmdStr settings) reads ∧
      (commands behind' (.start cmdStr' settings') reads' <+:
          commands behind (.start cmdStr settings) reads ∨
        commands behind (.start cmdStr settings) reads <+:
          commands behind' (.start cmdStr' settings') reads') := by
  have hfit' : ∀ l ∈ (typed reads').splitOn newline, l.length ≤ 31 := htyped ▸ hfit
  rw [commands_eq_map behind cmdStr settings hfit, commands_eq_map behind cmdStr' settings' hfit',
    commands_eq_map behind' cmdStr' settings' hfit', htyped]
  exact ⟨calls_holdsLine behind cmdStr settings hfit, rfl, rfl, List.prefix_or_prefix_of_prefix
    ((upToFinal_dropLast behind' 0 _).map cString) ((upToFinal_dropLast behind 0 _).map cString)⟩

/-- `OFF` in one read and in two. -/
theorem commands_off :
    commands (fun _ => []) (.start (Vector.replicate 32 1) ⟨1, 70, true, false, []⟩)
        [.data (ascii "OF") (by decide), .failed true, .data (ascii "F" ++ [newline]) (by decide)] =
      commands (fun _ => []) (.start (Vector.replicate 32 0) ⟨1, 70, true, false, []⟩)
        [.data (ascii "OFF" ++ [newline]) (by decide)] :=
  (commands_eq (by decide) (by decide) (fun _ => []) (fun _ => []) _ _ _ _).2.2.1

end Coursework.Sensor
