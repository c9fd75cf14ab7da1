import Coursework.Sensor.Commands
import Mathlib.Data.List.TakeWhile

/-!
# When the command loop stays inside its buffer

Only a newline resets `cmd_str_idx`, so it is the number of bytes since the last one, however the
reads split the input. `inRange_iff` says that a run stays inside `cmd_str` exactly if all lines
fit.
Vocabulary and scope: `Coursework.Sensor.Commands`.
-/

namespace Coursework.Sensor

/-- The bytes that are processed, up to a read that fails for good. -/
def typed : List ReadResult → Bytes
  | [] => []
  | .failed again :: reads => if again then typed reads else []
  | .data bytes _ :: reads => bytes ++ typed reads

/-- The string is a command that ends the program. -/
def IsFinal (behind text : Bytes) : Prop :=
  text = ascii "OFF" ∨
    (ascii "SCALE=" <+: text ∧ (text ++ [0])[6]? ≠ some 70 ∧ (text ++ [0])[6]? ≠ some 67) ∨
    (ascii "PERIOD=" <+: text ∧
      UInt32.ofInt (strtol (cString (((text ++ [0]).drop 7).take 8 ++ behind))) < 1)

/-- Every line up to the first command that ends the program has at most 31 bytes before its line
end; if there is none, the unfinished last line has at most 32 bytes. -/
def LinesFit (behind : Nat → Bytes) : Nat → List Bytes → Prop
  | _, [] => True
  | _, [last] => last.length ≤ 32
  | executed, line :: lines =>
      line.length ≤ 31 ∧ (IsFinal (behind executed) (cString line) ∨
        LinesFit behind (executed + 1) lines)

variable {behind : Nat → Bytes} {s : Loop}

/-! ## One command -/

/-- The string at the start of a terminated text. -/
theorem cString_append {text : Bytes} (hzero : 0 ∉ text) (stale : Bytes) :
    cString (text ++ 0 :: stale) = text := by
  rw [cString, List.takeWhile_append_of_pos fun b hb => by
    simpa using ne_of_mem_of_not_mem hb hzero]
  simp

/-- A terminated line starts with a terminated string, which may be shorter. -/
theorem exists_stale (line stale : Bytes) :
    0 ∉ cString line ∧ ∃ stale', line ++ 0 :: stale = cString line ++ 0 :: stale' := by
  by_cases hzero : 0 ∈ line
  · obtain ⟨text, rest, rfl, htext⟩ := List.eq_append_cons_of_mem hzero
    rw [cString_append htext]
    exact ⟨htext, rest ++ 0 :: stale, by simp⟩
  · have hline : cString line = line :=
      List.takeWhile_eq_self_iff.2 fun b hb => by simpa using ne_of_mem_of_not_mem hb hzero
    rw [hline]
    exact ⟨hzero, stale, rfl⟩

/-- The number that `PERIOD=` reads does not depend on what is behind the string in `cmd_str`. -/
theorem cString_tempPd {arg : Bytes} (hzero : 0 ∉ arg) (stale behind : Bytes) :
    cString ((arg ++ 0 :: stale).take 8 ++ behind) = cString ((arg ++ [0]).take 8 ++ behind) := by
  by_cases hlength : 8 ≤ arg.length
  · rw [List.take_append_of_le_length hlength, List.take_append_of_le_length hlength]
  · have htake : ∀ rest : Bytes, ∃ more, (arg ++ 0 :: rest).take 8 = arg ++ 0 :: more := by
      intro rest
      refine ⟨rest.take (7 - arg.length), ?_⟩
      rw [List.take_append, List.take_of_length_le (by omega),
        show 8 - arg.length = (7 - arg.length) + 1 by omega, List.take_succ_cons]
    obtain ⟨more, hmore⟩ := htake stale
    obtain ⟨more', hmore'⟩ := htake []
    rw [hmore, hmore', List.append_assoc, List.cons_append, List.append_assoc, List.cons_append,
      cString_append hzero, cString_append hzero]

/-- A string with one of two prefixes does not have the other one. -/
theorem not_prefix_of_prefix {p q text : Bytes} (hp : p <+: text) (hpq : ¬ p <+: q)
    (hqp : ¬ q <+: p) : ¬ q <+: text := fun hq =>
  (List.prefix_or_prefix_of_prefix hp hq).elim hpq hqp

section Command

variable {behind text stale : Bytes} {cmdStr : Vector UInt8 32} {settings : Settings}

/-- What executing the command does, and whether it should. -/
def RightlyEnds (behind text : Bytes) (settings : Settings) (cmdStr : Vector UInt8 32) : Prop :=
  (IsFinal behind text ∧ execCmd behind settings cmdStr = .error .exited) ∨
    (¬ IsFinal behind text ∧ ∃ settings', execCmd behind settings cmdStr = .ok settings')

theorem ne_of_start {p text word : Bytes} (hp : p <+: text) (hword : ¬ p <+: word) :
    text ≠ word :=
  fun heq => hword (heq ▸ hp)

theorem rightlyEnds_scale (htext : cString cmdStr.toList = text)
    (hcmd : cmdStr.toList = text ++ 0 :: stale) (hscale : ascii "SCALE=" <+: text) :
    RightlyEnds behind text settings cmdStr := by
  have hlog : ¬ ascii "LOG" <+: text := not_prefix_of_prefix hscale (by decide) (by decide)
  have hperiod : ¬ ascii "PERIOD=" <+: text :=
    not_prefix_of_prefix hscale (by decide) (by decide)
  have hoff : text ≠ ascii "OFF" := ne_of_start hscale (by decide)
  -- the character behind the `=`, which may be the NUL
  have hchar : (text ++ [0])[6]? = some cmdStr[6] := by
    obtain ⟨arg, rfl⟩ := hscale
    have hget : cmdStr.toList[6]? = some cmdStr[6] := by simp
    rw [← hget, hcmd]
    cases arg <;> rfl
  unfold RightlyEnds execCmd IsFinal
  simp only [htext]
  rw [if_neg hoff, if_neg (ne_of_start hscale (by decide)),
    if_neg (ne_of_start hscale (by decide)), if_neg hlog, if_pos hscale, hchar]
  by_cases hbad : cmdStr[6] ≠ 70 ∧ cmdStr[6] ≠ 67
  · refine .inl ⟨.inr (.inl ⟨hscale, ?_⟩), if_pos hbad⟩
    simpa using hbad
  · refine .inr ⟨?_, _, if_neg hbad⟩
    rintro (hoff' | ⟨-, hchar⟩ | ⟨hperiod', -⟩)
    · exact hoff hoff'
    · exact hbad (by simpa using hchar)
    · exact hperiod hperiod'

/-- The number of a `PERIOD` command does not depend on what is behind the command in the buffer. -/
theorem cString_number (hzero : 0 ∉ text) (hcmd : cmdStr.toList = text ++ 0 :: stale)
    (hperiod : ascii "PERIOD=" <+: text) (behind : Bytes) :
    cString ((cmdStr.toList.drop 7).take 8 ++ behind) =
      cString (((text ++ [0]).drop 7).take 8 ++ behind) := by
  obtain ⟨arg, rfl⟩ := hperiod
  rw [hcmd]
  exact cString_tempPd (fun hmem => hzero (List.mem_append_right _ hmem)) stale behind

theorem rightlyEnds_period (htext : cString cmdStr.toList = text) (hzero : 0 ∉ text)
    (hcmd : cmdStr.toList = text ++ 0 :: stale) (hperiod : ascii "PERIOD=" <+: text) :
    RightlyEnds behind text settings cmdStr := by
  have hlog : ¬ ascii "LOG" <+: text := not_prefix_of_prefix hperiod (by decide) (by decide)
  have hscale : ¬ ascii "SCALE=" <+: text :=
    not_prefix_of_prefix hperiod (by decide) (by decide)
  have hoff : text ≠ ascii "OFF" := ne_of_start hperiod (by decide)
  have hnumber := cString_number hzero hcmd hperiod behind
  unfold RightlyEnds execCmd IsFinal
  simp only [htext]
  rw [if_neg hoff, if_neg (ne_of_start hperiod (by decide)),
    if_neg (ne_of_start hperiod (by decide)), if_neg hlog, if_neg hscale, if_pos hperiod, hnumber]
  by_cases hbad : UInt32.ofInt (strtol (cString (((text ++ [0]).drop 7).take 8 ++ behind))) < 1
  · exact .inl ⟨.inr (.inr ⟨hperiod, hbad⟩), if_pos hbad⟩
  · refine .inr ⟨?_, _, if_neg hbad⟩
    rintro (hoff' | ⟨hscale', -⟩ | ⟨-, hbad'⟩)
    · exact hoff hoff'
    · exact hscale hscale'
    · exact hbad hbad'

/-- Executing a command ends the program exactly if the string is a final command. -/
theorem execCmd_eq (hzero : 0 ∉ text) (hcmd : cmdStr.toList = text ++ 0 :: stale) :
    (IsFinal behind text ∧ execCmd behind settings cmdStr = .error .exited) ∨
      (¬ IsFinal behind text ∧ ∃ settings', execCmd behind settings cmdStr = .ok settings') := by
  have htext : cString cmdStr.toList = text := by rw [hcmd, cString_append hzero]
  by_cases hscale : ascii "SCALE=" <+: text
  · exact rightlyEnds_scale htext hcmd hscale
  by_cases hperiod : ascii "PERIOD=" <+: text
  · exact rightlyEnds_period htext hzero hcmd hperiod
  -- the other commands have no argument that could be wrong
  unfold execCmd IsFinal
  simp only [htext]
  by_cases hoff : text = ascii "OFF"
  · exact .inl ⟨.inl hoff, if_pos hoff⟩
  · refine .inr ⟨?_, ?_⟩
    · rintro (hoff' | ⟨hscale', -⟩ | ⟨hperiod', -⟩)
      · exact hoff hoff'
      · exact hscale hscale'
      · exact hperiod hperiod'
    · rw [if_neg hoff, if_neg hscale, if_neg hperiod]
      split_ifs <;> exact ⟨_, rfl⟩

end Command

/-! ## The loop -/

/-- The unfinished line is at the start of `cmd_str`, and the index is behind it. -/
structure Loop.Holds (line : Bytes) (s : Loop) : Prop where
  idx : s.cmdStrIdx = line.length
  length_le : line.length ≤ 32
  stored : s.cmdStr.toList.take line.length = line

/-- A byte is stored behind the unfinished line. -/
theorem Loop.Holds.store {line : Bytes} (h : s.Holds line) (hlength : line.length < 32)
    (byte : UInt8) :
    ∃ cmdStr, s.store byte = .ok { s with cmdStr := cmdStr } ∧
      ∃ stale, cmdStr.toList = line ++ byte :: stale := by
  have hrange : 0 ≤ s.cmdStrIdx ∧ s.cmdStrIdx < 32 := by
    rw [h.idx]
    omega
  refine ⟨_, if_pos hrange, s.cmdStr.toList.drop (line.length + 1), ?_⟩
  rw [Vector.toList_setIfInBounds, h.idx, Int.toNat_natCast, List.set_eq_take_append_cons_drop,
    if_pos (by simpa using hlength), h.stored]

/-- Behind a full array there is no place for a byte. -/
theorem Loop.Holds.store_full {line : Bytes} (h : s.Holds line) (hlength : line.length = 32)
    (byte : UInt8) : s.store byte = .error .outOfRange := by
  refine if_neg ?_
  rw [h.idx, hlength]
  omega

/-- Storing a byte keeps the unfinished line. -/
theorem Loop.Holds.of_store {line : Bytes} (h : s.Holds line) {cmdStr : Vector UInt8 32}
    {byte : UInt8} {stale : Bytes} (hcmd : cmdStr.toList = line ++ byte :: stale) :
    Loop.Holds line { s with cmdStr := cmdStr } :=
  ⟨h.idx, h.length_le, by rw [hcmd, List.take_left]⟩

/-- A byte behind a full array ends the run. -/
theorem readByte_full {line : Bytes} (h : s.Holds line) (hlength : line.length = 32)
    (byte : UInt8) : readByte behind s byte = .error .outOfRange := by
  rw [readByte, h.store_full hlength]
  rfl

/-- A byte that is no newline makes the unfinished line longer. -/
theorem readByte_of_ne (behind : Nat → Bytes) {line : Bytes} (h : s.Holds line)
    (hlength : line.length < 32) {byte : UInt8} (hne : byte ≠ newline) :
    ∃ s', readByte behind s byte = .ok s' ∧ s'.Holds (line ++ [byte]) ∧
      s'.executed = s.executed := by
  obtain ⟨cmdStr, hstore, stale, hcmd⟩ := h.store hlength byte
  refine ⟨{ s with cmdStr := cmdStr, cmdStrIdx := s.cmdStrIdx + 1 }, ?_, ⟨?_, ?_, ?_⟩, rfl⟩
  · rw [readByte, hstore]
    simp only [bind, Except.bind, if_neg hne, pure, Except.pure]
  · simp only [h.idx, List.length_append, List.length_singleton]
    omega
  · rw [List.length_append, List.length_singleton]
    omega
  · have hsplit : line ++ byte :: stale = (line ++ [byte]) ++ stale := by simp
    rw [hcmd, hsplit, List.take_left]

/-- A newline executes the line; if that does not end the program, a new line begins. -/
theorem readByte_newline (behind : Nat → Bytes) {line : Bytes} (h : s.Holds line)
    (hlength : line.length < 32) :
    (IsFinal (behind s.executed) (cString line) ∧
      readByte behind s newline = .error .exited) ∨
    (¬ IsFinal (behind s.executed) (cString line) ∧
      ∃ s', readByte behind s newline = .ok s' ∧ s'.Holds [] ∧ s'.executed = s.executed + 1) := by
  obtain ⟨cmdStr, hstore, stale, hcmd⟩ := h.store hlength newline
  -- The newline itself is overwritten with the terminator.
  obtain ⟨cmdStr', hstore', stale', hcmd'⟩ := (h.of_store hcmd).store hlength 0
  obtain ⟨hzero, stale'', hstale⟩ := exists_stale line stale'
  rw [hstale] at hcmd'
  rw [readByte, hstore]
  simp only [bind, Except.bind, if_pos, hstore', pure, Except.pure]
  rcases execCmd_eq hzero hcmd' with ⟨hfinal, hexec⟩ | ⟨hfinal, settings, hexec⟩
  · exact .inl ⟨hfinal, by rw [hexec]⟩
  · refine .inr ⟨hfinal, _, by rw [hexec], ⟨rfl, Nat.zero_le _, rfl⟩, rfl⟩

/-- A first line that fits has at most 32 bytes. -/
theorem LinesFit.length_le {executed : Nat} {line : Bytes} {lines : List Bytes}
    (h : LinesFit behind executed (line :: lines)) : line.length ≤ 32 := by
  cases lines with
  | nil => exact h
  | cons => exact h.1.trans (by decide)

/-- Whether a finished line and the input behind it fit. -/
theorem linesFit_newline {executed : Nat} {line bytes : Bytes} (hline : newline ∉ line) :
    LinesFit behind executed ((line ++ newline :: bytes).splitOn newline) ↔
      line.length ≤ 31 ∧ (IsFinal (behind executed) (cString line) ∨
        LinesFit behind (executed + 1) (bytes.splitOn newline)) := by
  rw [List.splitOn_append_cons_self_of_not_mem hline]
  cases hsplit : bytes.splitOn newline with
  | nil => exact absurd hsplit (List.splitOn_ne_nil _ _)
  | cons next lines => rfl

/-- The first line of some input starts with the bytes before the first newline. -/
theorem splitOn_append {line : Bytes} (hline : newline ∉ line) (rest : Bytes) :
    ∃ more lines, (line ++ rest).splitOn newline = (line ++ more) :: lines := by
  by_cases hrest : newline ∈ rest
  · obtain ⟨more, tail, rfl, hmore⟩ := List.eq_append_cons_of_mem hrest
    refine ⟨more, tail.splitOn newline, ?_⟩
    rw [← List.append_assoc, List.splitOn_append_cons_self_of_not_mem]
    simp [hline, hmore]
  · exact ⟨rest, [], List.splitOn_eq_singleton (by simp [hline, hrest])⟩

/-- The bytes behind an unfinished line are stored in range exactly if all lines fit, by induction
on the bytes. -/
theorem foldlM_readByte_iff {line : Bytes} (h : s.Holds line) (hline : newline ∉ line)
    (bytes : Bytes) :
    bytes.foldlM (readByte behind) s ≠ .error .outOfRange ↔
      LinesFit behind s.executed ((line ++ bytes).splitOn newline) := by
  induction bytes generalizing s line with
  | nil =>
      rw [List.append_nil, List.splitOn_eq_singleton hline]
      exact ⟨fun _ => h.length_le, fun _ => by rw [List.foldlM_nil]; exact nofun⟩
  | cons byte bytes ih =>
      rw [List.foldlM_cons]
      by_cases hnewline : byte = newline
      · subst hnewline
        rw [linesFit_newline hline]
        rcases h.length_le.lt_or_eq with hlength | hlength
        · rcases readByte_newline behind h hlength with
            ⟨hfinal, hread⟩ | ⟨hfinal, s', hread, hs', hexecuted⟩
          · rw [hread]
            exact ⟨fun _ => ⟨by omega, .inl hfinal⟩, fun _ => nofun⟩
          · have hrest := ih hs' List.not_mem_nil
            rw [List.nil_append, hexecuted] at hrest
            rw [hread]
            exact hrest.trans ⟨fun hfit => ⟨by omega, .inr hfit⟩,
              fun hfit => hfit.2.resolve_left hfinal⟩
        · rw [readByte_full h hlength]
          exact ⟨fun hok => absurd rfl hok, fun hfit => by omega⟩
      · have hlonger : newline ∉ line ++ [byte] := by simpa [hline] using Ne.symm hnewline
        rcases h.length_le.lt_or_eq with hlength | hlength
        · obtain ⟨s', hread, hs', hexecuted⟩ := readByte_of_ne behind h hlength hnewline
          have hrest := ih hs' hlonger
          rw [hexecuted, List.append_assoc, List.singleton_append] at hrest
          rw [hread]
          exact hrest
        · rw [readByte_full h hlength]
          refine ⟨fun hok => absurd rfl hok, fun hfit => ?_⟩
          obtain ⟨more, lines, hsplit⟩ := splitOn_append hlonger bytes
          rw [List.append_assoc, List.singleton_append] at hsplit
          have hlong := (hsplit ▸ hfit).length_le
          simp only [List.length_append, List.length_singleton] at hlong
          omega

/-- The rounds process the bytes one after the other, however they were read. -/
theorem mainLoop_iff (reads : List ReadResult) :
    mainLoop behind s reads ≠ .error .outOfRange ↔
      (typed reads).foldlM (readByte behind) s ≠ .error .outOfRange := by
  induction reads generalizing s with
  | nil => exact Iff.rfl
  | cons read reads ih =>
      unfold mainLoop at ih ⊢
      rw [List.foldlM_cons]
      cases read with
      | failed again =>
          cases again with
          | true => exact ih
          | false => exact ⟨fun _ => by rw [typed]; exact nofun, fun _ => nofun⟩
      | data bytes length_le =>
          rw [typed, List.foldlM_append, round]
          cases bytes.foldlM (readByte behind) s with
          | error stop => exact Iff.rfl
          | ok s' => exact ih

/-- In every run, with every split of the input into reads, the stores to `cmd_str` are in range
exactly if all lines fit. -/
theorem inRange_iff (behind : Nat → Bytes) (cmdStr : Vector UInt8 32) (settings : Settings)
    (reads : List ReadResult) :
    mainLoop behind (.start cmdStr settings) reads ≠ .error .outOfRange ↔
      LinesFit behind 0 ((typed reads).splitOn newline) := by
  have hstart : Loop.Holds [] (.start cmdStr settings) := ⟨rfl, Nat.zero_le _, rfl⟩
  exact (mainLoop_iff reads).trans (foldlM_readByte_iff hstart List.not_mem_nil _)

/-- A `LOG` command of 32 bytes. -/
def longLog : Bytes :=
  ascii "LOG the sensor is in the kitchen"

/-- The newline behind it is stored behind `cmd_str`. -/
theorem longLog_outOfRange : ∃ behind cmdStr settings reads,
    typed reads = longLog ++ [newline] ∧
      mainLoop behind (.start cmdStr settings) reads = .error .outOfRange := by
  refine ⟨fun _ => [], Vector.replicate 32 0, ⟨1, 70, true, false, []⟩,
    [.data (longLog ++ [newline]) (by decide)], by decide, ?_⟩
  by_contra hok
  have hfit := (foldlM_readByte_iff ⟨rfl, Nat.zero_le _, rfl⟩ List.not_mem_nil _).1
    ((mainLoop_iff _).1 hok)
  have hsplit : ([] ++ (longLog ++ [newline])).splitOn newline = [longLog, []] := by decide
  have htyped : typed [.data (longLog ++ [newline]) (by decide)] = longLog ++ [newline] := by decide
  rw [htyped, hsplit] at hfit
  exact absurd hfit.1 (by decide)

end Coursework.Sensor
