import Coursework.Text.Search

/-!
# The file names of requests

`getFileName` copies the first line of a request and erases what is around the file name, at places
that it computes with the wrapping arithmetic of `size_t`. `fileName_found_iff` says for which
requests it comes to an end, and `getFileName_request` what it finds in a proper one. A read behind
the end of the message and an exception are the faults.
-/

namespace Coursework.HttpServer

open TextSearch

abbrev Text := List UInt8

/-- What stops `getFileName`. -/
inductive Fault where
  | outOfBounds
  | outOfRange
  /-- A loop is still running. -/
  | running
  deriving DecidableEq

/-- `'\n'`. -/
def newline : UInt8 := 10

/-- `' '`. -/
def space : UInt8 := 32

/-- `'/'`. -/
def slash : UInt8 := 47

/-- `"%20"`. -/
def percent20 : Text := [37, 50, 48]

/-- `std::string::npos`. -/
def npos : Nat := 18446744073709551615

/-- A sum of type `size_t`. -/
def sizeSum (m n : Nat) : Nat :=
  (m + n) % 18446744073709551616

/-- A difference of type `size_t`. -/
def sizeDifference (m n : Nat) : Nat :=
  (m + 18446744073709551616 - n) % 18446744073709551616

/-- A value of type `size_t` as an `int`. -/
def toInt (n : Nat) : Int :=
  if n % 4294967296 < 2147483648 then (n % 4294967296 : Nat)
  else (n % 4294967296 : Nat) - 4294967296

/-- A value of type `int` as a `size_t`. -/
def toSize (i : Int) : Nat :=
  (i % 18446744073709551616).toNat

/-- `find`. -/
def find (pattern text : Text) : Nat :=
  (position pattern text).getD npos

/-- `replace`. -/
def replace (text : Text) (pos count : Nat) (other : Text) : Except Fault Text :=
  if text.length < pos then .error .outOfRange
  else .ok (text.take pos ++ (other ++ text.drop (pos + count)))

/-- `erase`. -/
def erase (text : Text) (pos count : Nat) : Except Fault Text :=
  replace text pos count []

/-- The first loop of `getFileName`, which copies the characters up to a newline. -/
def copyLine (filename : Text) : Text → Except Fault Text
  -- the null byte at the end is copied, and the next character is read behind it
  | [] => .error .outOfBounds
  | c :: message => if c = newline then .ok filename else copyLine (filename ++ [c]) message

/-- The second loop of `getFileName`. -/
def replaceLoop : Nat → Text → Except Fault Text
  | 0, _ => .error .running
  | fuel + 1, filename =>
      let pos := toInt (find percent20 filename)
      if toSize pos = npos then .ok filename
      else do
        let filename ← replace filename (toSize pos) 3 [space]
        replaceLoop fuel filename

/-- `getFileName`. -/
def getFileName (message filename : Text) : Except Fault Text := do
  let filename ← copyLine filename message
  let filename ← erase filename 0 (sizeSum (find [slash] filename) 1)
  let filename ← erase filename (sizeDifference (find [slash] filename) 5)
    (sizeDifference filename.length 1)
  replaceLoop (filename.length + 1) filename

/-! ## What has to be shown -/

/-- The first line has a slash, and the next slash is at least five characters behind it. -/
def HasVersion (message : Text) : Prop :=
  ∃ before target version rest,
    message = before ++ slash :: (target ++ slash :: (version ++ newline :: rest)) ∧
      slash ∉ before ∧ slash ∉ target ∧ newline ∉ before ++ target ++ version ∧
      5 ≤ target.length

/-- The text with a space for each `"%20"`. -/
def decoded : Text → Text
  | 37 :: 50 :: 48 :: text => space :: decoded text
  | c :: text => c :: decoded text
  | [] => []

example : decoded [97, 37, 50, 37, 50, 48, 48, 98] = [97, 37, 50, 32, 48, 98] := by decide

section Proofs

variable {text before target version name rest line filename message : Text} {c : UInt8} {i : Nat}

/-! ## The first loop -/

/-- The first line is copied. -/
theorem copyLine_line (h : newline ∉ line) (filename rest : Text) :
    copyLine filename (line ++ newline :: rest) = .ok (filename ++ line) := by
  induction line generalizing filename with
  | nil => rw [List.nil_append, copyLine, if_pos rfl, List.append_nil]
  | cons c line ih =>
      obtain ⟨hne, hmem⟩ := List.ne_and_not_mem_of_not_mem_cons h
      rw [List.cons_append, copyLine, if_neg (Ne.symm hne), ih hmem, List.append_assoc]
      rfl

/-- Without a newline the loop leaves the message. -/
theorem copyLine_of_not_mem (h : newline ∉ message) (filename : Text) :
    copyLine filename message = .error .outOfBounds := by
  induction message generalizing filename with
  | nil => rfl
  | cons c message ih =>
      obtain ⟨hne, hmem⟩ := List.ne_and_not_mem_of_not_mem_cons h
      rw [copyLine, if_neg (Ne.symm hne), ih hmem]

/-! ## Erasing -/

theorem sizeSum_of_lt {m n : Nat} (h : m + n < 18446744073709551616) : sizeSum m n = m + n :=
  Nat.mod_eq_of_lt h

theorem sizeDifference_of_le {m n : Nat} (h : n ≤ m) (hm : m < 18446744073709551616) :
    sizeDifference m n = m - n := by
  rw [sizeDifference]
  omega

theorem sizeDifference_of_lt {m n : Nat} (h : m < n) :
    sizeDifference m n = (m + 18446744073709551616 - n) := by
  rw [sizeDifference]
  omega

theorem find_slash (h : slash ∉ before) (text : Text) :
    find [slash] (before ++ slash :: text) = before.length := by
  rw [find, position_singleton h, Option.getD_some]

theorem find_slash_eq_npos (h : slash ∉ text) : find [slash] text = npos := by
  rw [find, position_singleton_eq_none_iff.2 h, Option.getD_none]

theorem erase_of_le {pos : Nat} (h : pos ≤ text.length) (count : Nat) :
    erase text pos count = .ok (text.take pos ++ text.drop (pos + count)) := by
  rw [erase, replace, if_neg (Nat.not_lt.2 h), List.nil_append]

theorem erase_of_lt {pos : Nat} (h : text.length < pos) (count : Nat) :
    erase text pos count = .error .outOfRange := by
  rw [erase, replace, if_pos h]

/-- The first erasure ends at the first slash. -/
theorem erase_first (h : slash ∉ before) (hlength : before.length < 2147483648) (text : Text) :
    erase (before ++ slash :: text) 0 (sizeSum (find [slash] (before ++ slash :: text)) 1) =
      .ok text := by
  rw [find_slash h, sizeSum_of_lt (by omega), erase_of_le (Nat.zero_le _), Nat.zero_add]
  simp [List.drop_append]

/-- Without a slash it erases nothing. -/
theorem erase_first_of_not_mem (h : slash ∉ text) :
    erase text 0 (sizeSum (find [slash] text) 1) = .ok text := by
  have hzero : sizeSum npos 1 = 0 := rfl
  rw [find_slash_eq_npos h, hzero, erase_of_le (Nat.zero_le _)]
  rfl

/-- The second erasure begins five characters in front of the next slash. -/
theorem erase_second (h : slash ∉ target) (hfive : 5 ≤ target.length)
    (hlength : (target ++ slash :: version).length < 2147483648) :
    erase (target ++ slash :: version)
        (sizeDifference (find [slash] (target ++ slash :: version)) 5)
        (sizeDifference (target ++ slash :: version).length 1) =
      .ok ((target ++ slash :: version).take (target.length - 5) ++
        (target ++ slash :: version).drop
          (target.length - 5 + ((target ++ slash :: version).length - 1))) := by
  have hle : target.length + 1 ≤ (target ++ slash :: version).length := by simp
  rw [find_slash h, sizeDifference_of_le hfive (by omega),
    sizeDifference_of_le (m := List.length _) (by omega) (by omega), erase_of_le (by omega)]

/-- It fails if the next slash is nearer. -/
theorem erase_second_of_lt (h : slash ∉ target) (hfive : target.length < 5)
    (hlength : (target ++ slash :: version).length < 2147483648) (count : Nat) :
    erase (target ++ slash :: version)
        (sizeDifference (find [slash] (target ++ slash :: version)) 5) count =
      .error .outOfRange := by
  rw [find_slash h, sizeDifference_of_lt hfive, erase_of_lt (by omega)]

/-- It fails if there is no other slash. -/
theorem erase_second_of_not_mem (h : slash ∉ text) (hlength : text.length < 2147483648)
    (count : Nat) :
    erase text (sizeDifference (find [slash] text) 5) count = .error .outOfRange := by
  have hpos : sizeDifference npos 5 = 18446744073709551610 := rfl
  rw [find_slash_eq_npos h, hpos, erase_of_lt (by omega)]

/-! ## The second loop -/

theorem decoded_cons (h : ¬ percent20 <+: c :: text) : decoded (c :: text) = c :: decoded text := by
  refine decoded.eq_2 c text fun rest hc htext => h ?_
  rw [hc, htext]
  exact ⟨rest, rfl⟩

/-- A pattern does not run on into a text that begins with another character. -/
theorem decoded_append (text : Text) {other : Text} (h : other.head? ≠ some 50)
    (h' : other.head? ≠ some 48) : decoded (text ++ other) = decoded text ++ decoded other := by
  induction text using decoded.induct with
  | case1 text ih =>
      show space :: decoded (text ++ other) = space :: decoded text ++ decoded other
      rw [ih]
      rfl
  | case2 c text hne ih =>
      have hne' : ∀ rest, c = 37 → text ++ other = 50 :: 48 :: rest → False := by
        intro rest hc htext
        match text with
        | [] => exact h (congrArg List.head? htext)
        | [_] => exact h' (congrArg List.head? (List.cons.inj htext).2)
        | d :: e :: text =>
            obtain ⟨hd, hrest⟩ := List.cons.inj htext
            obtain ⟨he, -⟩ := List.cons.inj hrest
            exact hne text hc (by rw [hd, he])
      rw [List.cons_append, decoded.eq_2 c (text ++ other) hne', decoded.eq_2 c text hne, ih,
        List.cons_append]
  | case3 => rfl

/-- Replacing one occurrence does not change what all replacements make of a text. -/
theorem decoded_replaced (before after : Text) :
    decoded (before ++ space :: after) = decoded (before ++ (percent20 ++ after)) := by
  have hspace : ∀ c, c ≠ space → (space :: after).head? ≠ some c := fun c hc h =>
    hc (Option.some.inj h).symm
  have hpercent : ∀ c, c ≠ 37 → (percent20 ++ after).head? ≠ some c := fun c hc h =>
    hc (Option.some.inj h).symm
  rw [decoded_append before (hspace 50 (by decide)) (hspace 48 (by decide)),
    decoded_append before (hpercent 50 (by decide)) (hpercent 48 (by decide))]
  rfl

theorem decoded_eq_self (h : ¬ percent20 <:+: text) : decoded text = text := by
  induction text with
  | nil => rfl
  | cons c text ih =>
      rw [List.infix_cons_iff, not_or] at h
      rw [decoded_cons h.1, ih h.2]

theorem toSize_toInt (h : i < 2147483648) : toSize (toInt i) = i := by
  rw [toInt, toSize, Nat.mod_eq_of_lt (by omega), if_pos h]
  omega

/-- The loop ends, and makes all replacements. -/
theorem replaceLoop_eq {fuel : Nat} (hfuel : filename.length < fuel)
    (hlength : filename.length < 2147483648) :
    replaceLoop fuel filename = .ok (decoded filename) := by
  induction fuel generalizing filename with
  | zero => omega
  | succ fuel ih =>
      rw [replaceLoop]
      cases hposition : position percent20 filename with
      | none =>
          have hend : toSize (toInt (find percent20 filename)) = npos := by
            rw [find, hposition]
            rfl
          simp only [hend, if_true]
          rw [decoded_eq_self (position_eq_none_iff.1 hposition)]
      | some i =>
          obtain ⟨before, after, rfl, rfl⟩ := exists_of_position hposition
          have hle : before.length + 3 ≤ (before ++ (percent20 ++ after)).length := by
            simp [percent20]
          have hpos : toSize (toInt (find percent20 (before ++ (percent20 ++ after)))) =
              before.length := by
            rw [find, hposition, Option.getD_some, toSize_toInt (by omega)]
          have hreplace : replace (before ++ (percent20 ++ after)) before.length 3 [space] =
              .ok (before ++ (space :: after)) := by
            rw [replace, if_neg (by omega)]
            simp [percent20, List.drop_append]
          have hshorter : (before ++ space :: after).length + 2 =
              (before ++ (percent20 ++ after)).length := by
            simp [percent20]
            omega
          have hnpos : before.length ≠ npos := by
            rw [npos]
            omega
          simp only [hpos, if_neg hnpos, hreplace]
          show replaceLoop fuel (before ++ space :: after) = _
          rw [ih (by omega) (by omega), decoded_replaced]

/-! ## Results -/

theorem ok_bind {α β : Type} (a : α) (f : α → Except Fault β) : (Except.ok a >>= f) = f a := rfl

/-- What `getFileName` makes of a request whose first line has a second slash at least five
characters behind the first one. -/
theorem getFileName_eq (hbefore : slash ∉ before) (htarget : slash ∉ target)
    (hline : newline ∉ before ++ slash :: (target ++ slash :: version)) (hfive : 5 ≤ target.length)
    (hlength : (before ++ slash :: (target ++ slash :: version)).length < 2147483648)
    (rest : Text) :
    getFileName (before ++ slash :: (target ++ slash :: version) ++ newline :: rest) [] =
      .ok (decoded ((target ++ slash :: version).take (target.length - 5) ++
        (target ++ slash :: version).drop
          (target.length - 5 + ((target ++ slash :: version).length - 1)))) := by
  have hlength' : before.length + 1 + (target ++ slash :: version).length < 2147483648 := by
    simp at hlength ⊢
    omega
  have hkept : ((target ++ slash :: version).take (target.length - 5) ++
      (target ++ slash :: version).drop
        (target.length - 5 + ((target ++ slash :: version).length - 1))).length ≤
      (target ++ slash :: version).length := by
    simp
    omega
  have hfirst := erase_first hbefore (by omega) (target ++ slash :: version)
  have hlength'' : (target ++ slash :: version).length < 2147483648 := by omega
  have hsecond := erase_second htarget hfive hlength''
  rw [getFileName, copyLine_line hline, List.nil_append, ok_bind, hfirst, ok_bind, hsecond, ok_bind,
    replaceLoop_eq (Nat.lt_succ_self _) (by omega)]

theorem error_bind {α β : Type} (fault : Fault) (f : α → Except Fault β) :
    (Except.error fault >>= f) = .error fault := rfl

/-- Only the first line matters. -/
theorem getFileName_line (hline : newline ∉ line) (rest : Text) :
    getFileName (line ++ newline :: rest) [] = (do
      let filename ← erase line 0 (sizeSum (find [slash] line) 1)
      let filename ← erase filename (sizeDifference (find [slash] filename) 5)
        (sizeDifference filename.length 1)
      replaceLoop (filename.length + 1) filename) := by
  rw [getFileName, copyLine_line hline, List.nil_append, ok_bind]

/-- Where `getFileName` comes to its end, the first line has two slashes as said. -/
theorem hasVersion_of_ok (hlength : message.length < 2147483648)
    (hrun : getFileName message [] = .ok filename) : HasVersion message := by
  by_cases hnewline : newline ∈ message
  swap
  · rw [getFileName, copyLine_of_not_mem hnewline, error_bind] at hrun
    cases hrun
  obtain ⟨line, rest, rfl, hline⟩ := List.eq_append_cons_of_mem hnewline
  rw [List.length_append] at hlength
  rw [getFileName_line hline] at hrun
  by_cases hslash : slash ∈ line
  swap
  · have hsecond := erase_second_of_not_mem hslash (by omega) (sizeDifference line.length 1)
    rw [erase_first_of_not_mem hslash, ok_bind, hsecond, error_bind] at hrun
    cases hrun
  obtain ⟨before, text, rfl, hbefore⟩ := List.eq_append_cons_of_mem hslash
  rw [List.length_append, List.length_cons] at hlength
  rw [erase_first hbefore (by omega), ok_bind] at hrun
  have htext : text.length < 2147483648 := by omega
  by_cases hother : slash ∈ text
  swap
  · rw [erase_second_of_not_mem hother htext, error_bind] at hrun
    cases hrun
  obtain ⟨target, version, rfl, htarget⟩ := List.eq_append_cons_of_mem hother
  by_cases hfive : 5 ≤ target.length
  swap
  · rw [erase_second_of_lt htarget (Nat.lt_of_not_le hfive) htext, error_bind] at hrun
    cases hrun
  refine ⟨before, target, version, rest, by simp, hbefore, htarget, ?_, hfive⟩
  simp only [List.mem_append, List.mem_cons, not_or] at hline ⊢
  exact ⟨⟨hline.1, hline.2.2.1⟩, hline.2.2.2.2⟩

/-- `getFileName` comes to its end exactly if the first line has a second slash at least five
characters behind the first one. The buffer for messages has 8192 bytes, so all places in a message
are values of type `int`. -/
theorem fileName_found_iff (hlength : message.length < 2147483648) :
    (∃ filename, getFileName message [] = .ok filename) ↔ HasVersion message := by
  refine ⟨fun ⟨filename, hrun⟩ => hasVersion_of_ok hlength hrun, ?_⟩
  rintro ⟨before, target, version, rest, rfl, hbefore, htarget, hmem, hfive⟩
  have hline : newline ∉ before ++ slash :: (target ++ slash :: version) := by
    have hne : newline ≠ slash := by decide
    simp only [List.mem_append, List.mem_cons, not_or] at hmem ⊢
    exact ⟨hmem.1.1, hne, hmem.1.2, hne, hmem.2⟩
  have hsame : before ++ slash :: (target ++ slash :: (version ++ newline :: rest)) =
      before ++ slash :: (target ++ slash :: version) ++ newline :: rest := by simp
  rw [hsame] at hlength ⊢
  rw [List.length_append] at hlength
  exact ⟨_, getFileName_eq hbefore htarget hline hfive (by omega) rest⟩

/-- `"GET /a.html HTTP/1.1\n"`. -/
theorem fileName_found_small :
    (∃ filename, getFileName
      [71, 69, 84, 32, 47, 97, 46, 104, 116, 109, 108, 32, 72, 84, 84, 80, 47, 49, 46, 49, 10] [] =
        .ok filename) ↔
      HasVersion
        [71, 69, 84, 32, 47, 97, 46, 104, 116, 109, 108, 32, 72, 84, 84, 80, 47, 49, 46, 49, 10] :=
  fileName_found_iff (by decide)

/-- An empty line stops the server. -/
theorem fileName_of_empty_line : ¬ ∃ filename, getFileName [newline] [] = .ok filename := by
  rintro ⟨filename, hrun⟩
  have hfault : getFileName [newline] [] = .error .outOfRange := by decide
  exact nomatch hfault.symm.trans hrun

/-- `"GET /"`. -/
def getSlash : Text := [71, 69, 84, 32, 47]

/-- `" HTTP/1.1\r"`. -/
def httpVersion : Text := [32, 72, 84, 84, 80, 47, 49, 46, 49, 13]

/-- What `getFileName` finds in a proper request, which fits the buffer for messages. -/
theorem getFileName_request (hname : name ≠ []) (hslash : slash ∉ name) (hnewline : newline ∉ name)
    (rest : Text)
    (hlength : (getSlash ++ name ++ httpVersion ++ newline :: rest).length < 2147483648) :
    getFileName (getSlash ++ name ++ httpVersion ++ newline :: rest) [] = .ok (decoded name) := by
  have hbefore : slash ∉ [71, 69, 84, 32] := by decide
  have hhttp : slash ∉ [32, 72, 84, 84, 80] ∧ newline ∉ [32, 72, 84, 84, 80] := by decide
  have hends : newline ∉ [71, 69, 84, 32] ∧ newline ≠ slash ∧ newline ∉ [49, 46, 49, 13] := by
    decide
  have htarget : slash ∉ name ++ [32, 72, 84, 84, 80] := fun h =>
    (List.mem_append.1 h).elim hslash hhttp.1
  have hline : newline ∉ [71, 69, 84, 32] ++
      slash :: ((name ++ [32, 72, 84, 84, 80]) ++ slash :: [49, 46, 49, 13]) := by
    simp only [List.mem_append, List.mem_cons (b := slash), not_or]
    exact ⟨hends.1, hends.2.1, ⟨hnewline, hhttp.2⟩, hends.2.1, hends.2.2⟩
  have hsame : getSlash ++ name ++ httpVersion = [71, 69, 84, 32] ++
      slash :: ((name ++ [32, 72, 84, 84, 80]) ++ slash :: [49, 46, 49, 13]) := by
    simp [getSlash, httpVersion, slash]
  have hpos := List.length_pos_iff.2 hname
  rw [hsame] at hlength ⊢
  rw [List.length_append] at hlength
  rw [getFileName_eq hbefore htarget hline (by simp) (by omega) rest]
  -- the erasure leaves the name
  have hfront : (name ++ [32, 72, 84, 84, 80]).length - 5 = name.length := by simp
  have hend : ((name ++ [32, 72, 84, 84, 80]) ++ slash :: [49, 46, 49, 13]).drop
      (name.length + (((name ++ [32, 72, 84, 84, 80]) ++ slash :: [49, 46, 49, 13]).length - 1)) =
        [] := by
    rw [List.drop_eq_nil_iff]
    omega
  rw [hfront, hend, List.append_nil, List.append_assoc, List.take_left]

/-- `"GET /a%20b HTTP/1.1\r\n"`. -/
theorem getFileName_a_b :
    getFileName (getSlash ++ [97, 37, 50, 48, 98] ++ httpVersion ++ newline :: []) [] =
      .ok (decoded [97, 37, 50, 48, 98]) :=
  getFileName_request (by decide) (by decide) (by decide) [] (by decide)

end Proofs

end Coursework.HttpServer
