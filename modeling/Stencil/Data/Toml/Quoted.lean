import Stencil.Data.Toml.Digits

/-!
# Quoted texts of TOML

Texts between quotes, with escapes between double quotes and without them between single ones. The
forms with three quotes may have several lines; a line break right behind the opening quotes does
not belong to the text, and a backslash at the end of a line joins it to the next text.

Each reader takes what follows the opening quotes, and gives the text and what follows the
closing quotes.

Main definitions:

* `Toml.quoted?`: a text with any of the four kinds of quotes.
-/

namespace Stencil.Data.Toml

/-- Whether a character may stand unescaped in a text or a comment. -/
def isPlain (c : Char) : Bool :=
  c == '\t' || (0x20 ≤ c.toNat && c.toNat != 0x7F)

/-- A text and what follows it. -/
abbrev Read := Option (List Char × List Char)

/-- The character with the code point that the next `count` digits write in base sixteen, and what
follows them. -/
def codePoint? (count : Nat) (text : List Char) : Option (Char × List Char) :=
  let digits := text.take count
  if digits.length = count then
    (ofDigits? 16 digits).bind fun n =>
      if Nat.isValidChar n then some (Char.ofNat n, text.drop count) else none
  else none

/-- The character that an escape stands for, and what follows it. -/
def escape? : List Char → Option (Char × List Char)
  | 'b' :: rest => some ('\x08', rest)
  | 't' :: rest => some ('\t', rest)
  | 'n' :: rest => some ('\n', rest)
  | 'f' :: rest => some ('\x0c', rest)
  | 'r' :: rest => some ('\r', rest)
  | 'e' :: rest => some ('\x1b', rest)
  | '"' :: rest => some ('"', rest)
  | '\\' :: rest => some ('\\', rest)
  | 'x' :: rest => codePoint? 2 rest
  | 'u' :: rest => codePoint? 4 rest
  | 'U' :: rest => codePoint? 8 rest
  | _ => none

theorem length_of_codePoint? {count : Nat} {text rest : List Char} {c : Char}
    (h : codePoint? count text = some (c, rest)) : rest.length ≤ text.length := by
  simp only [codePoint?] at h
  split at h
  · obtain ⟨n, -, hn⟩ := Option.bind_eq_some_iff.1 h
    split at hn
    · simp only [Option.some.injEq, Prod.mk.injEq] at hn
      rw [← hn.2, List.length_drop]
      omega
    · simp at hn
  · simp at h

theorem length_of_escape? {text rest : List Char} {c : Char}
    (h : escape? text = some (c, rest)) : rest.length < text.length := by
  unfold escape? at h
  split at h
  all_goals
    first
    | (simp only [Option.some.injEq, Prod.mk.injEq] at h; simp [← h.2])
    | (have hc := length_of_codePoint? h
       simp
       omega)
    | simp at h

/-- A line break, and what follows it. -/
def lineBreak? : List Char → Option (List Char)
  | '\n' :: rest => some rest
  | '\r' :: '\n' :: rest => some rest
  | _ => none

/-- What follows the blanks and line breaks at the start of a text. -/
def skipBlankLines : List Char → List Char
  | [] => []
  | '\r' :: '\n' :: rest => skipBlankLines rest
  | c :: rest => if c = ' ' ∨ c = '\t' ∨ c = '\n' then skipBlankLines rest else c :: rest

/-- What follows the line breaks that a backslash at the end of a line takes away. -/
def joined? (text : List Char) : Option (List Char) :=
  (lineBreak? (text.dropWhile fun c => c == ' ' || c == '\t')).map skipBlankLines

theorem length_skipBlankLines_le (text : List Char) :
    (skipBlankLines text).length ≤ text.length := by
  fun_induction skipBlankLines text with
  | case1 => exact Nat.le_refl _
  | case2 rest ih => exact Nat.le_trans ih (by simp only [List.length_cons]; omega)
  | case3 c rest _ _ ih => exact Nat.le_trans ih (by simp only [List.length_cons]; omega)
  | case4 c rest _ _ => exact Nat.le_refl _

theorem length_dropWhile_le (p : Char → Bool) (text : List Char) :
    (text.dropWhile p).length ≤ text.length :=
  (List.dropWhile_sublist p).length_le

theorem length_of_lineBreak? {text rest : List Char} (h : lineBreak? text = some rest) :
    rest.length < text.length := by
  unfold lineBreak? at h
  split at h
  · rw [← Option.some.inj h, List.length_cons]
    omega
  · rw [← Option.some.inj h, List.length_cons, List.length_cons]
    omega
  · simp at h

theorem length_of_joined? {text rest : List Char} (h : joined? text = some rest) :
    rest.length < text.length := by
  obtain ⟨after, hbreak, heq⟩ := Option.map_eq_some_iff.1 h
  have h₁ := length_of_lineBreak? hbreak
  have h₂ := length_dropWhile_le (fun c => c == ' ' || c == '\t') text
  have h₃ := length_skipBlankLines_le after
  rw [← heq]
  omega

/-- Puts a character in front of a text that was read. -/
def Read.cons (c : Char) (read : Read) : Read :=
  read.map fun (text, rest) => (c :: text, rest)

/-- A text up to a double quote. -/
def basic (text : List Char) : Read :=
  match text with
  | [] => none
  | '"' :: rest => some ([], rest)
  | '\\' :: rest =>
    match h : escape? rest with
    | none => none
    | some (c, after) =>
      have := length_of_escape? h
      (basic after).cons c
  | c :: rest => if isPlain c then (basic rest).cons c else none
termination_by text.length

/-- A text up to three double quotes. -/
def basicLines (text : List Char) : Read :=
  match text with
  | [] => none
  | '"' :: '"' :: '"' :: '"' :: '"' :: rest => some (['"', '"'], rest)
  | '"' :: '"' :: '"' :: '"' :: rest => some (['"'], rest)
  | '"' :: '"' :: '"' :: rest => some ([], rest)
  | '\\' :: rest =>
    match h : joined? rest with
    | some after =>
      have := length_of_joined? h
      basicLines after
    | none =>
      match h : escape? rest with
      | none => none
      | some (c, after) =>
        have := length_of_escape? h
        (basicLines after).cons c
  | '\r' :: '\n' :: rest => ((basicLines rest).cons '\n').cons '\r'
  | c :: rest => if c = '\n' ∨ isPlain c then (basicLines rest).cons c else none
termination_by text.length

/-- A text up to a single quote. -/
def literal : List Char → Read
  | [] => none
  | '\x27' :: rest => some ([], rest)
  | c :: rest => if isPlain c then (literal rest).cons c else none

/-- A text up to three single quotes. -/
def literalLines : List Char → Read
  | [] => none
  | '\x27' :: '\x27' :: '\x27' :: '\x27' :: '\x27' :: rest => some (['\x27', '\x27'], rest)
  | '\x27' :: '\x27' :: '\x27' :: '\x27' :: rest => some (['\x27'], rest)
  | '\x27' :: '\x27' :: '\x27' :: rest => some ([], rest)
  | '\r' :: '\n' :: rest => ((literalLines rest).cons '\n').cons '\r'
  | c :: rest => if c = '\n' ∨ isPlain c then (literalLines rest).cons c else none

/-- A text without the line break at its start, if it has one. -/
def withoutBreak (text : List Char) : List Char :=
  (lineBreak? text).getD text

/-- A quoted text on one line, with its opening quote. -/
def quotedLine? : List Char → Read
  | '"' :: rest => basic rest
  | '\x27' :: rest => literal rest
  | _ => none

/-- A quoted text, with its opening quotes. -/
def quoted? : List Char → Read
  | '"' :: '"' :: '"' :: rest => basicLines (withoutBreak rest)
  | '\x27' :: '\x27' :: '\x27' :: rest => literalLines (withoutBreak rest)
  | text => quotedLine? text

end Stencil.Data.Toml
