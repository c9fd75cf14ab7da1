import Coursework.Sensor.Chunks
import Mathlib.Data.List.Induction

/-!
# What the commands do

The comment in front of `exec_cmd` says what each command is for. `Follows` says it of a whole run:
each setting is what the last command for it asks for, and every command is logged, in order.
`mainLoop_right` is that the command loop does so for any input, in any reads and with anything in
its memory, and that it ends the program exactly at the first command that asks for it or is wrong.
A number for `PERIOD` of 8 and more characters is left out: its copy has no end.
Vocabulary and scope: `Coursework.Sensor.Commands`, `Coursework.Sensor.Chunks`.
-/

namespace Coursework.Sensor

/-! ## What has to be shown -/

/-- The last value that some of the texts give, or the one from before. -/
def latest {α : Type} (value? : Bytes → Option α) (start : α) (texts : List Bytes) : α :=
  (texts.filterMap value?).getLast?.getD start

/-- `START` and `STOP`. -/
def report? (text : Bytes) : Option Bool :=
  if text = ascii "START" then some true
  else if text = ascii "STOP" then some false
  else none

/-- `SCALE=F` and `SCALE=C`. -/
def scale? (text : Bytes) : Option UInt8 :=
  if ascii "SCALE=" <+: text then text[6]? else none

/-- `PERIOD=seconds`. -/
def period? (text : Bytes) : Option UInt32 :=
  if ascii "PERIOD=" <+: text then some (UInt32.ofInt (strtol (text.drop 7))) else none

/-- The command is `OFF`, or its scale or period is wrong. -/
def Ends (text : Bytes) : Prop :=
  text = ascii "OFF" ∨
    (ascii "SCALE=" <+: text ∧ scale? text ≠ some 70 ∧ scale? text ≠ some 67) ∨
    period? text = some 0

/-- The settings after some commands. -/
structure Follows (start : Settings) (texts : List Bytes) (settings : Settings) : Prop where
  report : settings.reportFlag = latest report? start.reportFlag texts
  scale : settings.scale = latest scale? start.scale texts
  period : settings.period = latest period? start.period texts
  logFlag : settings.logFlag = start.logFlag
  logged : settings.logged = start.logged ++ if start.logFlag then texts else []

/-- The line fits into `cmd_str`, and the number of a `PERIOD` command with its end into
`temp_pd`. -/
def Fits (line : Bytes) : Prop :=
  line.length ≤ 31 ∧ (ascii "PERIOD=" <+: cString line → (cString line).length ≤ 14)

instance (line : Bytes) : Decidable (Fits line) :=
  inferInstanceAs (Decidable (_ ∧ _))

/-- The commands that the input completes. -/
def texts (reads : List ReadResult) : List Bytes :=
  ((typed reads).splitOn newline).dropLast.map cString

/-- A read fails for good. -/
def fails : List ReadResult → Bool
  | [] => false
  | .failed again :: reads => if again then fails reads else true
  | .data _ _ :: reads => fails reads

/-- The run has obeyed all commands, or one of them or a failed read has ended the program. -/
def RunRight (start : Settings) (reads : List ReadResult) (run : Except Stop Loop) : Prop :=
  ((∀ text ∈ texts reads, ¬ Ends text) ∧ fails reads = false ∧
    ∃ s, run = .ok s ∧ Follows start (texts reads) s.settings) ∨
  (((∃ text ∈ texts reads, Ends text) ∨ fails reads = true) ∧ run = .error .exited)

/-! ## One command -/

/-- The settings after a command. -/
def obey (settings : Settings) (text : Bytes) : Settings where
  period := (period? text).getD settings.period
  scale := (scale? text).getD settings.scale
  reportFlag := (report? text).getD settings.reportFlag
  logFlag := settings.logFlag
  logged := settings.logged ++ if settings.logFlag then [text] else []

section Command

variable {behind text stale : Bytes} {cmdStr : Buffer} {settings settings' : Settings}

theorem latest_concat {α : Type} (value? : Bytes → Option α) (start : α) (texts : List Bytes)
    (text : Bytes) :
    latest value? start (texts ++ [text]) = (value? text).getD (latest value? start texts) := by
  rw [latest, List.filterMap_append, List.getLast?_append]
  cases hvalue : value? text <;> simp [hvalue, latest]

/-- The settings after commands that are obeyed one after the other. -/
theorem follows_foldl (start : Settings) (texts : List Bytes) :
    Follows start texts (texts.foldl obey start) := by
  induction texts using List.reverseRecOn with
  | nil => exact ⟨rfl, rfl, rfl, rfl, by cases h : start.logFlag <;> simp⟩
  | append_singleton texts text ih =>
      rw [List.foldl_append]
      refine ⟨?_, ?_, ?_, ih.logFlag, ?_⟩
      · rw [latest_concat, ← ih.report]
        rfl
      · rw [latest_concat, ← ih.scale]
        rfl
      · rw [latest_concat, ← ih.period]
        rfl
      · show (texts.foldl obey start).logged ++ (if (texts.foldl obey start).logFlag then [text]
          else []) = _
        rw [ih.logged, ih.logFlag]
        cases start.logFlag <;> simp

/-- The number that `exec_cmd` reads. -/
theorem cString_period (hzero : 0 ∉ text) (hperiod : ascii "PERIOD=" <+: text)
    (hshort : text.length ≤ 14) (behind : Bytes) :
    cString (((text ++ [0]).drop 7).take 8 ++ behind) = text.drop 7 := by
  obtain ⟨arg, rfl⟩ := hperiod
  have hlength : (ascii "PERIOD=").length = 7 := by decide
  rw [List.length_append, hlength] at hshort
  have harg : 0 ∉ arg := fun hmem => hzero (List.mem_append_right _ hmem)
  rw [List.append_assoc, List.drop_left' hlength, List.drop_left' hlength,
    List.take_of_length_le (by simp; omega), List.append_assoc]
  exact cString_append harg behind

/-- The character that it reads. -/
theorem scale_eq (hscale : ascii "SCALE=" <+: text) (text' : Bytes) {c : UInt8} (hc : c ≠ 0) :
    (text ++ 0 :: text')[6]? = some c ↔ scale? text = some c := by
  rw [scale?, if_pos hscale]
  obtain ⟨arg, rfl⟩ := hscale
  cases arg with
  | nil =>
      refine iff_of_false (fun h => hc (Option.some.inj h).symm) (fun h => ?_)
      cases h
  | cons => exact Iff.rfl

theorem isFinal_iff (hzero : 0 ∉ text) (hshort : ascii "PERIOD=" <+: text → text.length ≤ 14)
    (behind : Bytes) : IsFinal behind text ↔ Ends text := by
  refine or_congr Iff.rfl (or_congr ?_ ?_)
  · refine and_congr_right fun hscale => and_congr ?_ ?_
    · exact not_congr (scale_eq hscale [] (by decide))
    · exact not_congr (scale_eq hscale [] (by decide))
  · rw [period?]
    by_cases hperiod : ascii "PERIOD=" <+: text
    · rw [if_pos hperiod, and_iff_right hperiod,
        cString_period hzero hperiod (hshort hperiod) behind, Option.some_inj]
      exact UInt32.lt_one_iff
    · rw [if_neg hperiod]
      exact iff_of_false (fun h => hperiod h.1) (Option.some_ne_none _).symm

theorem report_of_start {p : Bytes} (hp : p <+: text) (hstart : ¬ p <+: ascii "START")
    (hstop : ¬ p <+: ascii "STOP") : report? text = none := by
  rw [report?, if_neg (ne_of_start hp hstart), if_neg (ne_of_start hp hstop)]

/-- A command that does not end the program is obeyed. -/
theorem execCmd_obey (hzero : 0 ∉ text) (hcmd : cmdStr.toList = text ++ 0 :: stale)
    (hshort : ascii "PERIOD=" <+: text → text.length ≤ 14) (hends : ¬ Ends text)
    (hexec : execCmd behind settings cmdStr = .ok settings') : settings' = obey settings text := by
  have htext : cString cmdStr.toList = text := by rw [hcmd, cString_append hzero]
  have hlogged : (if settings.logFlag then
      { settings with logged := settings.logged ++ [text] } else settings) =
      { settings with
        logged := settings.logged ++ if settings.logFlag then [text] else [] } := by
    split_ifs <;> simp
  unfold execCmd at hexec
  simp only [htext, hlogged] at hexec
  have hoff : text ≠ ascii "OFF" := fun h => hends (.inl h)
  rw [if_neg hoff] at hexec
  by_cases hscale : ascii "SCALE=" <+: text
  · have hreport := report_of_start hscale (by decide) (by decide)
    have hlog : ¬ ascii "LOG" <+: text := not_prefix_of_prefix hscale (by decide) (by decide)
    have hnoPeriod : ¬ ascii "PERIOD=" <+: text :=
      not_prefix_of_prefix hscale (by decide) (by decide)
    have hperiod : period? text = none := if_neg hnoPeriod
    have hget : (text ++ 0 :: stale)[6]? = some cmdStr[6] := by
      rw [← hcmd]
      simp
    rw [if_neg (ne_of_start hscale (by decide)), if_neg (ne_of_start hscale (by decide)),
      if_neg hlog, if_pos hscale] at hexec
    by_cases hbad : cmdStr[6] ≠ 70 ∧ cmdStr[6] ≠ 67
    · rw [if_pos hbad] at hexec
      cases hexec
    have hne : cmdStr[6] ≠ 0 := by
      intro hnul
      exact hbad (hnul ▸ ⟨by decide, by decide⟩)
    rw [if_neg hbad] at hexec
    cases hexec
    rw [obey, hreport, hperiod, (scale_eq hscale stale hne).1 hget]
    rfl
  have hnoScale : scale? text = none := if_neg hscale
  by_cases hperiod : ascii "PERIOD=" <+: text
  · have hreport := report_of_start hperiod (by decide) (by decide)
    have hlog : ¬ ascii "LOG" <+: text := not_prefix_of_prefix hperiod (by decide) (by decide)
    have hsame := cString_number hzero hcmd hperiod behind
    rw [cString_period hzero hperiod (hshort hperiod)] at hsame
    rw [if_neg (ne_of_start hperiod (by decide)), if_neg (ne_of_start hperiod (by decide)),
      if_neg hlog, if_neg hscale, if_pos hperiod, hsame] at hexec
    by_cases hbad : UInt32.ofInt (strtol (text.drop 7)) < 1
    · rw [if_pos hbad] at hexec
      cases hexec
    rw [if_neg hbad] at hexec
    cases hexec
    rw [obey, hreport, hnoScale, period?, if_pos hperiod]
    rfl
  have hnoPeriod : period? text = none := if_neg hperiod
  rw [if_neg hscale, if_neg hperiod, ite_self] at hexec
  rw [obey, hnoScale, hnoPeriod, report?]
  split_ifs at hexec ⊢ <;> cases hexec <;> rfl

theorem execCmd_cases (hzero : 0 ∉ text) (hcmd : cmdStr.toList = text ++ 0 :: stale)
    (hshort : ascii "PERIOD=" <+: text → text.length ≤ 14) (behind : Bytes)
    (settings : Settings) :
    (Ends text ∧ execCmd behind settings cmdStr = .error .exited) ∨
      (¬ Ends text ∧ execCmd behind settings cmdStr = .ok (obey settings text)) := by
  rw [← isFinal_iff hzero hshort behind]
  rcases execCmd_eq hzero hcmd with ⟨hfinal, hexec⟩ | ⟨hfinal, settings', hexec⟩
  · exact .inl ⟨hfinal, hexec⟩
  · obtain rfl := execCmd_obey hzero hcmd hshort
      (mt (isFinal_iff hzero hshort behind).2 hfinal) hexec
    exact .inr ⟨hfinal, hexec⟩

end Command

/-! ## The run -/

section Run

variable {behind : Nat → Bytes} {s : Loop} {line : Bytes}

/-- A newline ends the program, or the command is obeyed and a new line begins. -/
theorem readByte_obey (behind : Nat → Bytes) (h : s.Holds line) (hfit : Fits line) :
    (Ends (cString line) ∧ readByte behind s newline = .error .exited) ∨
      (¬ Ends (cString line) ∧ ∃ s', readByte behind s newline = .ok s' ∧ s'.Holds [] ∧
        s'.settings = obey s.settings (cString line)) := by
  obtain ⟨cmdStr, hcalled, stale, hline⟩ := called_newline h (Nat.lt_succ_of_le hfit.1)
  obtain ⟨hzero, stale', hstale⟩ := exists_stale line stale
  rw [hstale] at hline
  rw [readByte_of_called hcalled]
  rcases execCmd_cases hzero hline hfit.2 (behind s.executed) s.settings with
    ⟨hends, hexec⟩ | ⟨hends, hexec⟩
  · exact .inl ⟨hends, by rw [hexec]; rfl⟩
  · exact .inr ⟨hends, _, by rw [hexec]; rfl, ⟨rfl, Nat.zero_le _, rfl⟩, rfl⟩

/-- The bytes behind an unfinished line, by induction on them. -/
theorem foldlM_obey (h : s.Holds line) (hline : newline ∉ line) (bytes : Bytes)
    (hfit : ∀ l ∈ (line ++ bytes).splitOn newline, Fits l) :
    ((∀ text ∈ (((line ++ bytes).splitOn newline).dropLast.map cString), ¬ Ends text) ∧
      ∃ s', bytes.foldlM (readByte behind) s = .ok s' ∧
        s'.settings =
          (((line ++ bytes).splitOn newline).dropLast.map cString).foldl obey s.settings) ∨
    ((∃ text ∈ (((line ++ bytes).splitOn newline).dropLast.map cString), Ends text) ∧
      bytes.foldlM (readByte behind) s = .error .exited) := by
  induction bytes generalizing s line with
  | nil =>
      rw [List.append_nil, List.splitOn_eq_singleton hline]
      exact .inl ⟨List.forall_mem_nil _, s, rfl, rfl⟩
  | cons byte bytes ih =>
      rw [List.foldlM_cons]
      by_cases hnewline : byte = newline
      · subst hnewline
        rw [List.splitOn_append_cons_self_of_not_mem hline] at hfit ⊢
        obtain ⟨hfirst, hrest⟩ := List.forall_mem_cons.1 hfit
        rw [List.dropLast_cons_of_ne_nil (List.splitOn_ne_nil _ _), List.map_cons]
        rcases readByte_obey behind h hfirst with
          ⟨hends, hread⟩ | ⟨hends, s', hread, hs', hsettings⟩
        · rw [hread]
          exact .inr ⟨⟨_, List.mem_cons_self, hends⟩, rfl⟩
        · rw [hread]
          rcases ih hs' List.not_mem_nil hrest with ⟨hnone, s'', hrun, hsettings'⟩ |
            ⟨⟨text, htext, hends'⟩, hrun⟩
          · refine .inl ⟨List.forall_mem_cons.2 ⟨hends, hnone⟩, s'', hrun, ?_⟩
            rw [hsettings', hsettings]
            rfl
          · exact .inr ⟨⟨text, List.mem_cons_of_mem _ htext, hends'⟩, hrun⟩
      · have hsame : line ++ byte :: bytes = line ++ [byte] ++ bytes := by simp
        have hlonger : newline ∉ line ++ [byte] := by simpa [hline] using Ne.symm hnewline
        rw [hsame] at hfit ⊢
        have hlength : line.length < 32 := by
          obtain ⟨more, lines, hsplit⟩ := splitOn_append hlonger bytes
          have hmore := (hfit _ (by rw [hsplit]; exact List.mem_cons_self)).1
          rw [List.length_append, List.length_append] at hmore
          omega
        obtain ⟨s', hread, hs', -⟩ := readByte_of_ne behind h hlength hnewline
        have hsettings := (readByte_of_not_called (called_of_ne hnewline) hread).1
        rw [hread, ← hsettings]
        exact ih hs' hlonger hfit

/-- The reads in which the bytes come do not count. -/
theorem mainLoop_eq (behind : Nat → Bytes) (s : Loop) (reads : List ReadResult) :
    mainLoop behind s reads = ((typed reads).foldlM (readByte behind) s).bind fun s =>
      if fails reads then .error .exited else .ok s := by
  induction reads generalizing s with
  | nil => rfl
  | cons read reads ih =>
      rw [mainLoop, List.foldlM_cons]
      cases read with
      | failed again =>
          cases again with
          | true => exact ih s
          | false => rfl
      | data bytes length_le =>
          rw [typed, List.foldlM_append]
          show (bytes.foldlM (readByte behind) s).bind (mainLoop behind · reads) = _
          cases bytes.foldlM (readByte behind) s with
          | error stop => rfl
          | ok next => exact ih next

/-- For any input whose lines fit, in any reads: the settings are those for which the last commands
ask, all commands are logged, and the program ends exactly at a command or a failed read for which
it should. -/
theorem mainLoop_right (behind : Nat → Bytes) (cmdStr : Buffer) (settings : Settings)
    {reads : List ReadResult} (hfit : ∀ l ∈ (typed reads).splitOn newline, Fits l) :
    RunRight settings reads (mainLoop behind (.start cmdStr settings) reads) := by
  have hstart : Loop.Holds [] (.start cmdStr settings) := ⟨rfl, Nat.zero_le _, rfl⟩
  rw [mainLoop_eq]
  rcases foldlM_obey hstart List.not_mem_nil (typed reads) hfit with
    ⟨hnone, s, hrun, hsettings⟩ | ⟨hends, hrun⟩
  · rw [hrun]
    cases hfails : fails reads with
    | false =>
        refine .inl ⟨hnone, hfails, s, rfl, ?_⟩
        rw [hsettings]
        exact follows_foldl settings (texts reads)
    | true => exact .inr ⟨.inr hfails, rfl⟩
  · rw [hrun]
    exact .inr ⟨.inl hends, rfl⟩

/-- Two commands in three reads. -/
theorem mainLoop_small :
    RunRight ⟨1, 70, true, true, []⟩
      [.data (ascii "SCALE=C" ++ newline :: ascii "PER") (by decide), .failed true,
        .data (ascii "IOD=5" ++ [newline]) (by decide)]
      (mainLoop (fun _ => []) (.start (Vector.replicate 32 1) ⟨1, 70, true, true, []⟩)
        [.data (ascii "SCALE=C" ++ newline :: ascii "PER") (by decide), .failed true,
          .data (ascii "IOD=5" ++ [newline]) (by decide)]) :=
  mainLoop_right (fun _ => []) _ _ (by decide)

end Run

end Coursework.Sensor
