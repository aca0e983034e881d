import Mathlib.Data.List.Basic
import Stencil.CommandLine.Run
import Stencil.Proofs.Text.Splitting

/-!
# Reading records

A payload can be written as a record, in JSON and on one line. Whoever reads such lines gets the
payloads back: a quote inside a text is escaped and so is a line break, so a text ends where it was
closed, and a record ends where its line does.

Main definitions:

* `Json.unquote?`: reads a text up to the quote that closes it.
* `Payload.ofRecord?`, `Payload.ofLines?`: read one record, and a record on each line.

Main statements:

* `unquote?_append`: a text that was quoted is read back.
* `ofRecord?_compact`, `ofLines?_join`: so is a payload, and so are all payloads.
-/

namespace Stencil

namespace Data.Json

/-- The value of `c` as a digit of base sixteen, in lower case. -/
def hexValue? (c : Char) : Option Nat :=
  if c.isDigit then some (c.toNat - '0'.toNat)
  else if 'a' ≤ c ∧ c ≤ 'f' then some (c.toNat - 'a'.toNat + 10)
  else none

/-- The character that a letter behind a backslash stands for. -/
def escaped? : Char → Option Char
  | '"' => some '"'
  | '\\' => some '\\'
  | '/' => some '/'
  | 'b' => some '\x08'
  | 'f' => some '\x0c'
  | 'n' => some '\n'
  | 'r' => some '\r'
  | 't' => some '\t'
  | _ => none

/-- The character that the digits `a`, `b`, `c` and `d` of base sixteen stand for. -/
def codepoint? (a b c d : Char) : Option Char := do
  let high := (← hexValue? a) * 16 + (← hexValue? b)
  let low := (← hexValue? c) * 16 + (← hexValue? d)
  return Char.ofNat (high * 256 + low)

/-- Reads a text up to the quote that closes it; gives what stands behind the quote, too. -/
def unquote? : List Char → Option (List Char × List Char)
  | [] => none
  | '"' :: rest => some ([], rest)
  | '\\' :: 'u' :: a :: b :: c :: d :: rest => do
    let first ← codepoint? a b c d
    let (text, rest) ← unquote? rest
    return (first :: text, rest)
  | '\\' :: c :: rest => do
    let first ← escaped? c
    let (text, rest) ← unquote? rest
    return (first :: text, rest)
  | c :: rest => do
    let (text, rest) ← unquote? rest
    return (c :: text, rest)

theorem hexValue?_hexDigit (n : Nat) : hexValue? (hexDigit n) = some (n % 16) := by
  have hdigit : ∀ m < 16, hexValue? (Nat.digitChar m) = some m := by decide
  exact hdigit (n % 16) (Nat.mod_lt n (by decide))

/-- A control character `c` is read back from its number. -/
theorem codepoint?_hexDigit {c : Char} (h : c.toNat < 0x20) :
    codepoint? '0' '0' (hexDigit (c.toNat / 16)) (hexDigit c.toNat) = some c := by
  have hnumber : c.toNat / 16 % 16 * 16 + c.toNat % 16 = c.toNat := by omega
  have hzero : hexValue? '0' = some 0 := by decide
  simp [codepoint?, hexValue?_hexDigit, hzero, hnumber, Char.ofNat_toNat]

/-- The character `c` is written as a backslash with a letter, by its number, or as it is. -/
theorem escape_cases (c : Char) :
    (∃ letter, escape c = ['\\', letter] ∧ escaped? letter = some c) ∨
      (c.toNat < 0x20 ∧
        escape c = ['\\', 'u', '0', '0', hexDigit (c.toNat / 16), hexDigit c.toNat]) ∨
      (c ≠ '"' ∧ c ≠ '\\' ∧ c ≠ '\n' ∧ escape c = [c]) := by
  unfold escape
  repeat' split
  any_goals
    subst_vars
    exact .inl ⟨_, rfl, rfl⟩
  · rename_i hcontrol
    exact .inr (.inl ⟨hcontrol, rfl⟩)
  · rename_i hquote hbackslash hbreak _ _ _ _ _
    exact .inr (.inr ⟨hquote, hbackslash, hbreak, rfl⟩)

/-- The character `c` is read back from the way in which it was written. -/
theorem unquote?_escape_append (c : Char) (rest : List Char) :
    unquote? (escape c ++ rest) =
      (unquote? rest).map fun read => (c :: read.1, read.2) := by
  rcases escape_cases c with ⟨letter, hescape, hletter⟩ | ⟨hcontrol, hescape⟩ |
    ⟨hquote, hbackslash, -, hescape⟩
  · -- the letter `u` stands for no character by itself
    have hu : letter ≠ 'u' := by
      rintro rfl
      cases hletter
    rw [hescape]
    cases hread : unquote? rest <;> simp [unquote?, hu, hletter, hread]
  · have hfirst := codepoint?_hexDigit hcontrol
    rw [hescape]
    cases hread : unquote? rest <;> simp [unquote?, hfirst, hread]
  · rw [hescape]
    cases hread : unquote? rest <;> simp [unquote?, hbackslash, hread]

/-- The `text` is read back up to the quote that closes it. -/
theorem unquote?_append (text rest : List Char) :
    unquote? (text.flatMap escape ++ '"' :: rest) = some (text, rest) := by
  induction text with
  | nil => simp [unquote?]
  | cons c text ih =>
    rw [List.flatMap_cons, List.append_assoc, unquote?_escape_append, ih]
    rfl

/-- No line break is left in `text` when it is quoted. -/
theorem newline_notMem_escape (text : List Char) : '\n' ∉ text.flatMap escape := by
  intro hmem
  obtain ⟨c, -, hmem⟩ := List.mem_flatMap.1 hmem
  rcases escape_cases c with ⟨letter, hescape, hletter⟩ | ⟨-, hescape⟩ | ⟨-, -, hbreak, hescape⟩
  · have hne : '\n' ≠ letter := by
      rintro rfl
      cases hletter
    rw [hescape] at hmem
    simp [hne] at hmem
  · -- a digit is no line break
    have hdigit : ∀ n, '\n' ≠ hexDigit n := by
      intro n heq
      have hvalue := hexValue?_hexDigit n
      rw [← heq] at hvalue
      cases hvalue
    rw [hescape] at hmem
    simp [hdigit] at hmem
  · rw [hescape, List.mem_singleton] at hmem
    exact hbreak hmem.symm

end Data.Json

namespace Payload

open Data Data.Json

/-- Reads a label, which is a text or nothing. -/
def readLabel? : List Char → Option (Option String × List Char)
  | '"' :: rest => (unquote? rest).map fun read => (some (String.ofList read.1), read.2)
  | text => (text.dropPrefix? "null".toList).map fun rest => (none, rest)

/-- Reads a record. -/
def ofRecord? (record : List Char) : Option Payload := do
  let rest ← record.dropPrefix? "\x7b\"index\":".toList
  let index := Nat.ofDigitChars 10 (rest.takeWhile Char.isDigit) 0
  let rest ← (rest.dropWhile Char.isDigit).dropPrefix? ",\"label\":".toList
  let (label, rest) ← readLabel? rest
  let rest ← rest.dropPrefix? ",\"body\":\"".toList
  let (body, rest) ← unquote? rest
  if rest = ['\x7d'] then some ⟨index, label, String.ofList body⟩ else none

/-- Reads a record on each line. -/
def ofLines? (text : String) : Option (List Payload) :=
  ((Text.splitOn '\n' text.toList).dropLast).mapM ofRecord?

/-- What is written for the label of `payload`. -/
def labelText (payload : Payload) : List Char :=
  payload.label.elim "null".toList fun label => '"' :: label.toList.flatMap escape ++ ['"']

variable {payload : Payload}

/-- What the record of `payload` looks like. -/
theorem toList_compact (payload : Payload) :
    payload.toValue.compact.toList =
      "\x7b\"index\":".toList ++ (Nat.toDigits 10 payload.index ++
        (",\"label\":".toList ++ (payload.labelText ++
          (",\"body\":\"".toList ++
            (payload.body.toList.flatMap escape ++ '"' :: ['\x7d']))))) := by
  -- the index is written in decimal digits
  have hindex : (toString (payload.index : Int)).toList = Nat.toDigits 10 payload.index := by
    show (Nat.repr payload.index).toList = _
    rw [Nat.repr_eq_ofList_toDigits, String.toList_ofList]
  have hname : ∀ name : String, (quote name).toList = '"' :: name.toList.flatMap escape ++ ['"'] :=
    fun name => String.toList_ofList
  have hlabel : (payload.label.elim Value.null Value.text).compact.toList = payload.labelText := by
    rw [labelText]
    cases payload.label with
    | none => rfl
    | some label => exact hname label
  simp only [toValue, Value.compact, Value.compactEntries, String.toList_append, hindex, hlabel,
    hname]
  simp [escape]

/-- The label of `payload` is read back. -/
theorem readLabel?_append (payload : Payload) (rest : List Char) :
    readLabel? (payload.labelText ++ rest) = some (payload.label, rest) := by
  rw [labelText]
  cases payload.label with
  | none => simp [readLabel?, List.dropPrefix?]
  | some label => simp [readLabel?, unquote?_append]

/-- The record of `payload` is read back. -/
theorem ofRecord?_compact (payload : Payload) :
    ofRecord? payload.toValue.compact.toList = some payload := by
  have hskip : ∀ start rest : List Char, (start ++ rest).dropPrefix? start = some rest :=
    fun start rest => List.dropPrefix?_append_of_beq rest (BEq.refl start)
  have hdigits : ∀ c ∈ Nat.toDigits 10 payload.index, c.isDigit = true :=
    fun c => Nat.isDigit_of_mem_toDigits (by decide) (by decide)
  -- the digits end at the comma
  have hcomma : ∀ rest, (",\"label\":".toList ++ rest).takeWhile Char.isDigit = [] ∧
      (",\"label\":".toList ++ rest).dropWhile Char.isDigit = ",\"label\":".toList ++ rest :=
    fun rest => ⟨rfl, rfl⟩
  rw [toList_compact, ofRecord?, hskip]
  simp only [Option.bind_eq_bind, Option.bind_some, List.takeWhile_append_of_pos hdigits,
    List.dropWhile_append_of_pos hdigits, hcomma, hskip, readLabel?_append, unquote?_append,
    List.append_nil, Nat.ofDigitChars_ten_toDigits, if_true, String.ofList_toList]

/-- The record of `payload` takes one line. -/
theorem newline_notMem_compact (payload : Payload) : '\n' ∉ payload.toValue.compact.toList := by
  -- a line break is no digit, and it is escaped in texts
  have hdigits : '\n' ∉ Nat.toDigits 10 payload.index := fun hmem =>
    absurd (Nat.isDigit_of_mem_toDigits (by decide) (by decide) hmem) (by decide)
  have hlabel : '\n' ∉ payload.labelText := by
    rw [labelText]
    cases payload.label with
    | none => decide
    | some label => simpa using newline_notMem_escape label.toList
  have hbody := newline_notMem_escape payload.body.toList
  rw [toList_compact]
  simp only [List.mem_append, List.mem_cons, hdigits, hlabel, hbody]
  decide

/-- Each line of the records of `payloads` holds one of them, and behind the last one there is
nothing. -/
theorem splitOn_join (payloads : List Payload) :
    Text.splitOn '\n' (String.join (payloads.map (line true))).toList =
      payloads.map (fun payload => payload.toValue.compact.toList) ++ [[]] := by
  induction payloads with
  | nil => rfl
  | cons payload payloads ih =>
    have hline : (line true payload).toList = payload.toValue.compact.toList ++ ['\n'] := by
      simp [line]
    rw [List.map_cons, String.join_cons, String.toList_append, hline, List.append_assoc,
      List.singleton_append, Text.splitOn_append, ih,
      Text.splitOn_eq_singleton payload.newline_notMem_compact]
    rfl

/-- The records of `payloads`, on lines, are read back. -/
theorem ofLines?_join (payloads : List Payload) :
    ofLines? (String.join (payloads.map (line true))) = some payloads := by
  rw [ofLines?, splitOn_join, List.dropLast_concat, List.mapM_map]
  induction payloads with
  | nil => rfl
  | cons payload payloads ih =>
    rw [List.mapM_cons, ih]
    simp [ofRecord?_compact]

end Payload

end Stencil
