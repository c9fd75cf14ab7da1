import Coursework.Loops.Counting
import Coursework.Sensor.Chunks
import Coursework.Sorts.Program
import Mathlib.Data.Nat.Digits.Defs

/-!
# Setting the period

The option `--period` and the command `PERIOD=` of `lab4b.c`. Both assign what `strtol` returns to
`period`, which is unsigned, and check it afterwards: a negative number is taken for a large one,
and at the check of a zero the old period is already lost. The command copies 8 bytes of its
argument, whatever its length. `period_right_iff` says for which arguments the period is set as it
should be, and for which the copy stays inside the string.
Vocabulary and scope: `Coursework.Sensor.Commands`, `Coursework.Sensor.Chunks`.
-/

namespace Coursework.Sensor

open Loops Sorts

/-! ## The program -/

/-- The message about a period that is too small. -/
def notPositive : String :=
  "sampling interval must be postive integer\n"

/-- `period` after its assignment, and the message with which the program ends, if it does. -/
structure Checked where
  period : UInt32
  message : Option String

/-- `period = strtol(text, NULL, 0)` and the check of `period`. -/
def setPeriod (text : Bytes) : Checked :=
  let period := UInt32.ofInt (strtol text)
  if period < 1 then ⟨period, some notPositive⟩ else ⟨period, none⟩

/-- The case `'p'` of `get_opts`. -/
def getOptsPeriod (optarg : Bytes) : Checked :=
  setPeriod (cString optarg)

/-- A round of the loop of `exec_cmd` that copies the argument of `PERIOD=`; `ptr` is `i` bytes
behind it. -/
def copyRound (cmdStr : Bytes) (i : Nat) (tempPd : Bytes) : Option Bytes := do
  let c ← cmdStr[7 + i]?
  store tempPd i c

/-- `temp_pd` behind the loop, where only the bytes of `cmdStr` may be read. -/
def copyArgument (cmdStr : Bytes) : Option Bytes :=
  repeatTo (copyRound cmdStr) 0 8 (List.replicate 8 0)

/-- The case `PERIOD=` of `exec_cmd`. -/
def execPeriod (behind cmdStr : Bytes) : Option Checked := do
  let tempPd ← copyArgument cmdStr
  some (setPeriod (cString (tempPd ++ behind)))

/-! ## The numbers -/

/-- An integer as it is written in decimal: a minus sign or none, and digits, which do not begin
with 0 if there are several. -/
structure Decimal where
  negative : Bool
  first : Fin 10
  more : List (Fin 10)
  no_leading_zero : first = 0 → more = []

/-- The character of a digit. -/
def digitChar (d : Fin 10) : UInt8 :=
  UInt8.ofNat (48 + d)

namespace Decimal

/-- The digits. -/
def chars (d : Decimal) : Bytes :=
  (d.first :: d.more).map digitChar

/-- The text of the integer. -/
def text (d : Decimal) : Bytes :=
  if d.negative then 45 :: d.chars else d.chars

/-- The integer without its sign. -/
def magnitude (d : Decimal) : Nat :=
  Nat.ofDigits 10 ((d.first :: d.more).map Fin.val).reverse

/-- The integer. -/
def value (d : Decimal) : Int :=
  if d.negative then -d.magnitude else d.magnitude

end Decimal

/-! ## What should happen -/

/-- A number from 1 on is set; another one is rejected with the message, and the running period
stays. -/
def Checked.Right (r : Checked) (running : UInt32) (v : Int) : Prop :=
  if 1 ≤ v then r.message = none ∧ (r.period.toNat : Int) = v
  else r.message = some notPositive ∧ r.period = running

/-- How the execution of the command ends. -/
def Checked.Ends (r : Checked) : Except Stop Settings → Prop
  | .ok settings => r.message = none ∧ settings.period = r.period
  | .error stop => r.message.isSome ∧ stop = .exited

/-- The command `PERIOD=` with the number does right. -/
def CommandRight (behind : Bytes) (settings : Settings) (cmdStr : Buffer) (v : Int) : Prop :=
  ∃ r, execPeriod behind cmdStr.toList = some r ∧ r.Ends (execCmd behind settings cmdStr) ∧
    r.Right settings.period v

/-- The option `--period` with the number does right. -/
def OptionRight (running : UInt32) (d : Decimal) : Prop :=
  (getOptsPeriod (d.text ++ [0])).Right running d.value

/-- The copy reads nothing behind the end of the command. -/
def CopyInside (d : Decimal) : Prop :=
  (copyArgument (ascii "PERIOD=" ++ d.text ++ [0])).isSome

/-- The command and the option do right, and the copy stays inside the command. -/
structure PeriodRight (behind : Bytes) (settings : Settings) (cmdStr : Buffer) (running : UInt32)
    (d : Decimal) : Prop where
  command : CommandRight behind settings cmdStr d.value
  opt : OptionRight running d
  inside : CopyInside d

/-- The periods with which `get_opts` ends: the first one, or that of an option. -/
def FromOptions (period : UInt32) : Prop :=
  period = 1 ∨ ∃ optarg, getOptsPeriod optarg = ⟨period, none⟩

/-! ## The copy -/

/-- The copy has its bytes if there are enough of them. -/
theorem copyArgument_eq {cmdStr : Bytes} (h : 15 ≤ cmdStr.length) :
    copyArgument cmdStr = some ((cmdStr.drop 7).take 8) := by
  obtain ⟨tempPd, hrun, hlength, htake⟩ := repeatTo_spec (copyRound cmdStr) 0 8
    (List.replicate 8 0)
    (fun i tempPd => tempPd.length = 8 ∧ tempPd.take i = (cmdStr.drop 7).take i)
    (Nat.zero_le _) ⟨rfl, rfl⟩ (by
      rintro i tempPd - hi ⟨hlength, htake⟩
      have hget : cmdStr[7 + i]? = some cmdStr[7 + i] := List.getElem?_eq_getElem (by omega)
      have hdrop : (cmdStr.drop 7)[i]? = some cmdStr[7 + i] := by rw [List.getElem?_drop, hget]
      refine ⟨tempPd.set i cmdStr[7 + i], ?_, by rw [List.length_set, hlength], ?_⟩
      · rw [copyRound, hget]
        exact if_pos (by omega)
      · rw [List.take_add_one, List.take_add_one, hdrop, List.take_set_of_le (Nat.le_refl i),
          htake, List.getElem?_set_self (by omega)])
  rw [List.take_of_length_le (by omega)] at htake
  rw [copyArgument, ← htake]
  exact hrun

/-- The last of its rounds needs the 15th byte. -/
theorem le_of_copyArgument {cmdStr : Bytes} (h : (copyArgument cmdStr).isSome) :
    15 ≤ cmdStr.length := by
  obtain ⟨tempPd, hrun⟩ := Option.isSome_iff_exists.1 h
  obtain ⟨before, after, hround⟩ :=
    exists_round_of_repeatTo hrun (j := 7) (Nat.zero_le _) (by decide)
  obtain ⟨c, hget, -⟩ := Option.bind_eq_some_iff.1 hround
  obtain ⟨hlt, -⟩ := List.getElem?_eq_some_iff.1 hget
  omega

/-- Only an argument of 7 bytes, with its end, is as long as the copy. -/
theorem copyInside_iff {d : Decimal} (hlength : d.text.length ≤ 7) :
    CopyInside d ↔ d.text.length = 7 := by
  have hcommand : (ascii "PERIOD=" ++ d.text ++ [0]).length = 7 + d.text.length + 1 := by
    rw [List.length_append, List.length_append]
    rfl
  constructor
  · intro h
    have := le_of_copyArgument h
    omega
  · intro h
    rw [CopyInside, copyArgument_eq (by omega)]
    rfl

/-! ## Reading the number -/

/-- The bytes of a number in decimal. -/
def IsDigitChar (b : UInt8) : Prop :=
  48 ≤ b ∧ b ≤ 57

theorem isDigitChar_digitChar (d : Fin 10) : IsDigitChar (digitChar d) := by
  revert d
  unfold IsDigitChar
  decide

theorem digitValue_digitChar (d : Fin 10) : digitValue (digitChar d) = d := by
  revert d
  decide

theorem isSpace_digitChar (d : Fin 10) : isSpace (digitChar d) = false := by
  revert d
  decide

theorem digitChar_not_sign (d : Fin 10) : digitChar d ≠ 45 ∧ digitChar d ≠ 43 := by
  revert d
  decide

/-- The value that `strtol` adds up is that of the digits by their places. -/
theorem digits_digitChar (ds : List (Fin 10)) (v : Nat) :
    digits 10 v (ds.map digitChar) =
      v * 10 ^ ds.length + Nat.ofDigits 10 (ds.map Fin.val).reverse := by
  induction ds generalizing v with
  | nil => rw [List.map_nil, digits]; simp
  | cons d ds ih =>
      have hlt : digitValue (digitChar d) < 10 := by
        rw [digitValue_digitChar]
        exact d.isLt
      rw [List.map_cons, digits, if_pos hlt, digitValue_digitChar, ih, List.map_cons,
        List.reverse_cons, Nat.ofDigits_append, Nat.ofDigits_singleton, List.length_reverse,
        List.length_map, List.length_cons]
      ring

namespace Decimal

variable {d : Decimal}

theorem isDigitChar_of_mem_chars {b : UInt8} (h : b ∈ d.chars) : IsDigitChar b := by
  obtain ⟨digit, -, rfl⟩ := List.mem_map.1 h
  exact isDigitChar_digitChar digit

theorem length_chars_le : d.chars.length ≤ d.text.length := by
  unfold text
  split
  · exact Nat.le_succ _
  · exact Nat.le_refl _

/-- An integer of at most 7 bytes is less than ten million. -/
theorem magnitude_lt (hlength : d.text.length ≤ 7) : d.magnitude < 10000000 := by
  have hlt : d.magnitude < 10 ^ d.chars.length := by
    have hpow := Nat.ofDigits_lt_base_pow_length (b := 10)
      (l := ((d.first :: d.more).map Fin.val).reverse) (by decide) (by
        intro x hx
        obtain ⟨digit, -, rfl⟩ := List.mem_map.1 (List.mem_reverse.1 hx)
        exact digit.isLt)
    rw [List.length_reverse, List.length_map] at hpow
    rw [chars, List.length_map]
    exact hpow
  have hle := length_chars_le.trans hlength
  exact hlt.trans_le (Nat.pow_le_pow_right (by decide) hle)

/-- There is no NUL in the text. -/
theorem zero_not_mem_text : 0 ∉ d.text := by
  have hchars : 0 ∉ d.chars := fun h =>
    absurd (isDigitChar_of_mem_chars h).1 (by decide)
  unfold text
  split
  · exact List.not_mem_cons_of_ne_of_not_mem (by decide) hchars
  · exact hchars

/-- The digits are read in base 10: they begin with no prefix of another base, and with a 0 only
if it is the only digit. -/
theorem value_chars :
    (if d.chars.take 2 ∈ [ascii "0x", ascii "0X"] ∧
        (d.chars.drop 2).head?.any (digitValue · < 16) then digits 16 0 (d.chars.drop 2)
      else if d.chars.head? = some 48 then digits 8 0 d.chars
      else digits 10 0 d.chars) = d.magnitude := by
  have hprefix : d.chars.take 2 ∉ [ascii "0x", ascii "0X"] := by
    intro hmem
    have hsecond : 120 ∈ d.chars.take 2 ∨ 88 ∈ d.chars.take 2 := by
      rcases List.mem_pair.1 hmem with heq | heq <;> rw [heq] <;> decide
    rcases hsecond with h | h <;>
      exact absurd (isDigitChar_of_mem_chars (List.mem_of_mem_take h)).2 (by decide)
  rw [if_neg fun h => hprefix h.1]
  by_cases hzero : d.chars.head? = some 48
  · have hfirst : d.first = 0 := by
      have hchar : digitChar d.first = 48 := Option.some.inj hzero
      have hval := digitValue_digitChar d.first
      rw [hchar] at hval
      exact Fin.ext hval.symm
    have hmore := d.no_leading_zero hfirst
    rw [if_pos hzero, chars, magnitude, hfirst, hmore]
    decide
  · rw [if_neg hzero, chars, digits_digitChar, Nat.zero_mul, Nat.zero_add, magnitude]

/-- The sign is read. -/
theorem sign_text : sign (d.text.dropWhile isSpace) = (if d.negative then -1 else 1, d.chars) := by
  have hchars : d.chars = digitChar d.first :: d.more.map digitChar := rfl
  rw [text]
  cases d.negative with
  | true => rfl
  | false =>
      rw [if_neg (by decide), hchars, List.dropWhile_cons_of_neg
        (Bool.eq_false_iff.1 (isSpace_digitChar d.first)), sign,
        if_neg (digitChar_not_sign d.first).1, if_neg (digitChar_not_sign d.first).2]
      rfl

theorem value_range (hlength : d.text.length ≤ 7) : -10000000 < d.value ∧ d.value < 10000000 := by
  have hlt := magnitude_lt hlength
  unfold value
  cases d.negative <;> simp <;> omega

/-- `strtol` reads the integer. -/
theorem strtol_text (hlength : d.text.length ≤ 7) : strtol d.text = d.value := by
  have hrange := value_range hlength
  have hsigned : (if d.negative then (-1 : Int) else 1) * d.magnitude = d.value := by
    unfold value
    cases d.negative <;> simp
  unfold strtol
  simp only [sign_text, value_chars, hsigned]
  rw [if_neg (by omega), if_neg (by omega)]

end Decimal

/-! ## Setting the number -/

/-- What becomes of a number in `period`. -/
theorem toNat_ofInt (v : Int) : (UInt32.ofInt v).toNat = (v % 4294967296).toNat := by
  have hlt : (v % 4294967296).toNat < 4294967296 := by omega
  rw [UInt32.ofInt, UInt32.toNat_ofNat']
  exact Nat.mod_eq_of_lt hlt

theorem lt_one_iff (period : UInt32) : period < 1 ↔ period.toNat = 0 := by
  rw [UInt32.lt_iff_toNat_lt]
  exact Nat.lt_one_iff

/-- A number that does not end the program is a positive period. -/
theorem one_le_setPeriod {text : Bytes} (h : (setPeriod text).message = none) :
    1 ≤ (setPeriod text).period := by
  simp only [setPeriod] at h ⊢
  split_ifs at h ⊢ with hsmall
  exact UInt32.not_lt.1 hsmall

/-- The numbers that are set or rejected as they should be. -/
theorem right_setPeriod_iff {text : Bytes} {running : UInt32} (hrunning : 1 ≤ running)
    (hhigh : strtol text < 10000000) :
    (setPeriod text).Right running (strtol text) ↔ 1 ≤ strtol text := by
  have hnat := toNat_ofInt (strtol text)
  simp only [Checked.Right, setPeriod]
  constructor
  · intro h
    by_contra hsmall
    rw [if_neg hsmall] at h
    split_ifs at h with hzero
    -- a zero has replaced the period when it is rejected, and a negative number is not rejected
    · have hlost : running < 1 := lt_of_eq_of_lt h.2.symm hzero
      exact absurd hlost (UInt32.not_lt.2 hrunning)
    · cases h.1
  · intro hpos
    have hlarge : ¬ UInt32.ofInt (strtol text) < 1 := by
      rw [lt_one_iff]
      omega
    rw [if_pos hpos, if_neg hlarge]
    refine ⟨rfl, ?_⟩
    show ((UInt32.ofInt (strtol text)).toNat : Int) = strtol text
    omega

/-- The option does right exactly for the positive numbers. -/
theorem optionRight_iff {d : Decimal} {running : UInt32} (hrunning : 1 ≤ running)
    (hlength : d.text.length ≤ 7) : OptionRight running d ↔ 1 ≤ d.value := by
  have hread := d.strtol_text hlength
  have hhigh := (d.value_range hlength).2
  rw [← hread] at hhigh
  rw [OptionRight, getOptsPeriod, cString_append d.zero_not_mem_text, ← hread]
  exact right_setPeriod_iff hrunning hhigh

section Command

variable {settings : Settings} {cmdStr : Buffer} {d : Decimal}

/-- The copy always stays inside `cmd_str`, and what is checked is what `exec_cmd` goes by. -/
theorem execPeriod_ends (behind : Bytes) (settings : Settings)
    (hperiod : ascii "PERIOD=" <+: cString cmdStr.toList) :
    execPeriod behind cmdStr.toList =
        some (setPeriod (cString ((cmdStr.toList.drop 7).take 8 ++ behind))) ∧
      (setPeriod (cString ((cmdStr.toList.drop 7).take 8 ++ behind))).Ends
        (execCmd behind settings cmdStr) := by
  constructor
  · rw [execPeriod, copyArgument_eq (by simp)]
    rfl
  · have hscale : ¬ ascii "SCALE=" <+: cString cmdStr.toList :=
      not_prefix_of_prefix hperiod (by decide) (by decide)
    have hlog : ¬ ascii "LOG" <+: cString cmdStr.toList :=
      not_prefix_of_prefix hperiod (by decide) (by decide)
    unfold execCmd setPeriod
    simp only
    rw [if_neg (ne_of_start hperiod (by decide)), if_neg (ne_of_start hperiod (by decide)),
      if_neg (ne_of_start hperiod (by decide)), if_neg hlog, if_neg hscale, if_pos hperiod]
    split_ifs <;> exact ⟨rfl, rfl⟩

/-- So does the command. -/
theorem commandRight_iff (behind : Bytes) (hrunning : 1 ≤ settings.period)
    (hlength : d.text.length ≤ 7) (hholds : HoldsLine cmdStr (ascii "PERIOD=" ++ d.text)) :
    CommandRight behind settings cmdStr d.value ↔ 1 ≤ d.value := by
  obtain ⟨stale, hcmd⟩ := hholds
  have hzero : 0 ∉ ascii "PERIOD=" ++ d.text := by
    rw [List.mem_append]
    exact not_or.2 ⟨by decide, d.zero_not_mem_text⟩
  have hperiod : ascii "PERIOD=" <+: cString cmdStr.toList := by
    rw [hcmd, cString_append hzero]
    exact List.prefix_append ..
  -- `strtol` stops at the end of the string, which is copied with it
  have hnumber : cString ((cmdStr.toList.drop 7).take 8 ++ behind) = d.text := by
    have hdrop : cmdStr.toList.drop 7 = d.text ++ 0 :: stale := by
      rw [hcmd]
      rfl
    have hall : (d.text ++ [0]).length ≤ 8 := by
      rw [List.length_append]
      exact Nat.succ_le_succ hlength
    rw [hdrop, cString_tempPd d.zero_not_mem_text, List.take_of_length_le hall, List.append_assoc]
    exact cString_append d.zero_not_mem_text behind
  obtain ⟨hexec, hends⟩ := execPeriod_ends behind settings hperiod
  rw [hnumber] at hexec hends
  have hhigh := (d.value_range hlength).2
  rw [← d.strtol_text hlength] at hhigh ⊢
  rw [← right_setPeriod_iff hrunning hhigh]
  constructor
  · rintro ⟨r, hr, -, hright⟩
    obtain rfl := Option.some.inj (hexec.symm.trans hr)
    exact hright
  · exact fun hright => ⟨_, hexec, hends, hright⟩

end Command

/-! ## The running period -/

section Running

variable {behind : Nat → Bytes} {s s' : Loop}

/-- No command leaves a period of 0 behind. -/
theorem one_le_execCmd {behind : Bytes} {settings settings' : Settings} {cmdStr : Buffer}
    (h : 1 ≤ settings.period) (hexec : execCmd behind settings cmdStr = .ok settings') :
    1 ≤ settings'.period := by
  unfold execCmd at hexec
  extract_lets text logged scale tempPd period at hexec
  have hlogged : 1 ≤ logged.period := by
    unfold logged
    split <;> exact h
  split at hexec
  · cases hexec
  split at hexec
  · exact Except.ok.inj hexec ▸ hlogged
  split at hexec
  · exact Except.ok.inj hexec ▸ hlogged
  split at hexec
  · exact Except.ok.inj hexec ▸ hlogged
  split at hexec
  · split at hexec
    · cases hexec
    · exact Except.ok.inj hexec ▸ hlogged
  split at hexec
  · -- only this command sets another period
    split at hexec
    · cases hexec
    · next hlarge => exact Except.ok.inj hexec ▸ UInt32.not_lt.1 hlarge
  · exact Except.ok.inj hexec ▸ hlogged

theorem one_le_readByte {byte : UInt8} (h : 1 ≤ s.settings.period)
    (hread : readByte behind s byte = .ok s') : 1 ≤ s'.settings.period := by
  rcases readByte_cases hread with ⟨-, hsettings, -⟩ | ⟨cmdStr, -, hexec, -⟩
  · rwa [hsettings]
  · exact one_le_execCmd h hexec

/-- What every step of a loop keeps holds behind the loop. -/
theorem holds_of_foldlM {ε σ α : Type} {f : σ → α → Except ε σ} {I : σ → Prop}
    (hstep : ∀ s a s', I s → f s a = .ok s' → I s') {l : List α} {s s' : σ} (h : I s)
    (hrun : l.foldlM f s = .ok s') : I s' := by
  induction l generalizing s with
  | nil =>
      cases hrun
      exact h
  | cons a l ih =>
      rw [List.foldlM_cons] at hrun
      cases hfirst : f s a with
      | error stop =>
          rw [hfirst] at hrun
          cases hrun
      | ok s₁ =>
          rw [hfirst] at hrun
          exact ih (hstep s a s₁ h hfirst) hrun

/-- In every run the period is at least 1, as it is after the options. -/
theorem one_le_mainLoop {reads : List ReadResult} (h : 1 ≤ s.settings.period)
    (hrun : mainLoop behind s reads = .ok s') : 1 ≤ s'.settings.period := by
  refine holds_of_foldlM (I := fun s => 1 ≤ s.settings.period) (fun s read s' h hround => ?_) h hrun
  cases read with
  | failed again =>
      rw [round] at hround
      split at hround <;> cases hround
      exact h
  | data bytes length_le =>
      exact holds_of_foldlM (I := fun s => 1 ≤ s.settings.period)
        (fun _ _ _ h hread => one_le_readByte h hread) h hround

theorem FromOptions.one_le {period : UInt32} (h : FromOptions period) : 1 ≤ period := by
  rcases h with rfl | ⟨optarg, hopt⟩
  · exact UInt32.le_refl 1
  · have haccepted : 1 ≤ (setPeriod (cString optarg)).period :=
      one_le_setPeriod (congrArg Checked.message hopt)
    exact haccepted.trans_eq (congrArg Checked.period hopt)

/-- In every state that the loop reaches, the command and the option do right exactly for the
positive numbers. The copy stays inside the command exactly if the number has 7 characters, and
always inside `cmd_str`. -/
theorem period_right_iff (behind : Nat → Bytes) (cmdStr₀ : Buffer) {initial : Settings}
    (hinitial : FromOptions initial.period) {reads : List ReadResult}
    (hrun : mainLoop behind (.start cmdStr₀ initial) reads = .ok s) {d : Decimal}
    (hlength : d.text.length ≤ 7) {cmdStr : Buffer}
    (hholds : HoldsLine cmdStr (ascii "PERIOD=" ++ d.text)) :
    (PeriodRight (behind s.executed) s.settings cmdStr initial.period d ↔
        1 ≤ d.value ∧ d.text.length = 7) ∧
      (CommandRight (behind s.executed) s.settings cmdStr d.value ↔ 1 ≤ d.value) ∧
      (OptionRight initial.period d ↔ 1 ≤ d.value) ∧ (CopyInside d ↔ d.text.length = 7) := by
  have hrunning : 1 ≤ s.settings.period :=
    one_le_mainLoop (s := .start cmdStr₀ initial) hinitial.one_le hrun
  have hcommand := commandRight_iff (behind s.executed) hrunning hlength hholds
  have hoption := optionRight_iff hinitial.one_le hlength
  have hcopy := copyInside_iff hlength
  refine ⟨⟨fun h => ?_, fun h => ?_⟩, hcommand, hoption, hcopy⟩
  · exact ⟨hcommand.1 h.command, hcopy.1 h.inside⟩
  · exact ⟨hcommand.2 h.1, hoption.2 h.1, hcopy.2 h.2⟩

end Running

/-! ## Two numbers -/

/-- The settings before the first command. -/
def firstSettings : Settings :=
  ⟨1, 70, true, false, []⟩

/-- A buffer with a line and zeros behind it. -/
def bufferOf (line : Bytes) : Buffer :=
  Vector.ofFn fun i => line.getD i 0

/-- 1234567. -/
def sevenDigits : Decimal :=
  ⟨false, 1, [2, 3, 4, 5, 6, 7], by decide⟩

theorem sevenDigits_right :
    PeriodRight [] firstSettings (bufferOf (ascii "PERIOD=1234567")) 1 sevenDigits := by
  have hrun : mainLoop (fun _ => []) (.start (bufferOf []) firstSettings) [] =
      .ok (.start (bufferOf []) firstSettings) := rfl
  have hholds : HoldsLine (bufferOf (ascii "PERIOD=1234567"))
      (ascii "PERIOD=" ++ sevenDigits.text) := ⟨List.replicate 17 0, by decide⟩
  have hright := period_right_iff (fun _ => []) (bufferOf []) (.inl rfl) hrun (by decide) hholds
  exact hright.1.2 ⟨by decide, by decide⟩

/-- -5. -/
def minusFive : Decimal :=
  ⟨true, 5, [], by decide⟩

/-- It is taken for 4294967291, by the command and by the option. -/
theorem minusFive_accepted :
    minusFive.text = ascii "-5" ∧ minusFive.value = -5 ∧
      HoldsLine (bufferOf (ascii "PERIOD=-5")) (ascii "PERIOD=-5") ∧
      ¬ PeriodRight [] firstSettings (bufferOf (ascii "PERIOD=-5")) 1 minusFive ∧
      execPeriod [] (bufferOf (ascii "PERIOD=-5")).toList = some ⟨4294967291, none⟩ ∧
      getOptsPeriod (ascii "-5" ++ [0]) = ⟨4294967291, none⟩ := by
  refine ⟨by decide, by decide, ⟨List.replicate 22 0, by decide⟩, fun h => ?_, rfl, rfl⟩
  have hpos := (optionRight_iff (UInt32.le_refl 1) (by decide)).1 h.opt
  exact absurd hpos (by decide)

end Coursework.Sensor
