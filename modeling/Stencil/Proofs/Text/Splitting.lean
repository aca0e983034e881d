import Stencil.Text.Blank
import Stencil.Text.Lines

/-!
# Splitting texts of known parts

A text that was put together from parts comes apart into these parts again, if none of them has
the character at which it is split.

Main statements:

* `splitFirst_append`, `splitFirst_self`: the first place of a pattern, behind a text that does not
  have its first character.
* `length_le_of_splitFirst`: no place of a pattern lies before the first one.
* `splitOn_intercalate`: the parts between separators.
* `exists_infix_part`, `infix_of_infix_cons`, `infix_of_infix_concat`, `infix_append_cons_cases`,
  `infix_trim`: words are found again in the parts of a text, in a text without its ends, on one
  side of a character, and in a text that is trimmed.
* `prefix_append_cons_iff`: what starts a text before a character that it does not have.
* `suffix_append_cases`, `suffix_cons_append_cases`, `append_eq_append_around`: where a place lies
  in two texts together, and a pattern in a text with a word that it cannot overlap.
* `trim_eq_self`: a text without blanks.
-/

namespace Stencil.Text

/-- The text `before`, which lacks the first character `c` of a pattern, is passed over in the
search for it. -/
theorem splitFirst_append {c : Char} {before : List Char} (h : c ∉ before)
    (pattern rest : List Char) :
    splitFirst (c :: pattern) (before ++ rest) =
      (splitFirst (c :: pattern) rest).map fun parts => (before ++ parts.1, parts.2) := by
  induction before with
  | nil => simp
  | cons d before ih =>
    obtain ⟨hne, hrest⟩ := not_or.1 (mt List.mem_cons.2 h)
    -- the pattern does not start here, as its first character is another one
    have hprefix : (c :: pattern).isPrefixOf (d :: (before ++ rest)) = false := by
      simp [List.isPrefixOf, hne]
    rw [List.cons_append, splitFirst, hprefix, ih hrest]
    simp [Function.comp_def]

/-- A `pattern` at the start of a text is found there. -/
theorem splitFirst_self {pattern : List Char} (h : pattern ≠ []) (rest : List Char) :
    splitFirst pattern (pattern ++ rest) = some ([], rest) := by
  have hprefix : pattern.isPrefixOf (pattern ++ rest) = true :=
    List.isPrefixOf_iff_prefix.2 (List.prefix_append _ _)
  cases pattern with
  | nil => exact absurd rfl h
  | cons c pattern =>
    rw [List.cons_append] at hprefix ⊢
    rw [splitFirst, hprefix, if_pos rfl, ← List.cons_append, List.drop_left]

/-- The character `c` is first found behind `before`, which lacks it. -/
theorem splitFirst_singleton {c : Char} {before : List Char} (h : c ∉ before) (rest : List Char) :
    splitFirst [c] (before ++ c :: rest) = some (before, rest) := by
  rw [splitFirst_append h, show c :: rest = [c] ++ rest from rfl, splitFirst_self (by simp)]
  simp

/-- No place of `pattern` lies before the first one, at the end of `before`. -/
theorem length_le_of_splitFirst {pattern text before after start rest : List Char}
    (h : splitFirst pattern text = some (before, after)) (htext : text = start ++ pattern ++ rest) :
    before.length ≤ start.length := by
  induction text generalizing before start with
  | nil =>
    rw [splitFirst] at h
    split at h <;> simp_all
  | cons c text ih =>
    rw [splitFirst] at h
    split at h
    · cases h
      exact Nat.zero_le _
    · rename_i hprefix
      obtain ⟨⟨before', after'⟩, hsplit, heq⟩ := Option.map_eq_some_iff.1 h
      cases heq
      cases start with
      | nil =>
        -- the pattern would stand at the very start
        rw [List.isPrefixOf_iff_prefix, htext, List.nil_append] at hprefix
        exact absurd (List.prefix_append _ _) hprefix
      | cons d start =>
        simp only [List.cons_append, List.cons.injEq] at htext
        exact Nat.succ_le_succ (ih hsplit htext.2)

/-- What lies `before` the first place of `c` lacks it. -/
theorem notMem_of_splitFirst {c : Char} {text before after : List Char}
    (h : splitFirst [c] text = some (before, after)) : c ∉ before := by
  intro hmem
  obtain ⟨start, rest, rfl⟩ := List.append_of_mem hmem
  have htext : text = start ++ [c] ++ (rest ++ [c] ++ after) := by
    rw [eq_append_of_splitFirst h]
    simp
  have hle := length_le_of_splitFirst h htext
  simp only [List.length_append, List.length_cons] at hle
  omega

/-- A text has one first place of the character `c` only. -/
theorem append_cons_inj {c : Char} {first second rest rest' : List Char} (hfirst : c ∉ first)
    (hsecond : c ∉ second) (h : first ++ c :: rest = second ++ c :: rest') :
    first = second ∧ rest = rest' := by
  have hsplit := congrArg (splitFirst [c]) h
  rw [splitFirst_singleton hfirst, splitFirst_singleton hsecond] at hsplit
  simpa using hsplit

/-- A `text` without the `separator` is one part. -/
theorem splitOn_eq_singleton {separator : Char} {text : List Char} (h : separator ∉ text) :
    splitOn separator text = [text] := by
  induction text with
  | nil => rfl
  | cons c rest ih =>
    obtain ⟨hne, hrest⟩ := not_or.1 (mt List.mem_cons.2 h)
    rw [splitOn, if_neg (Ne.symm hne), ih hrest]

/-- If none of `parts` has the `separator`, they are what the text that is put together with it is
divided into. -/
theorem splitOn_intercalate {separator : Char} {parts : List (List Char)} (hne : parts ≠ [])
    (h : ∀ part ∈ parts, separator ∉ part) :
    splitOn separator (List.intercalate [separator] parts) = parts := by
  induction parts with
  | nil => exact absurd rfl hne
  | cons part parts ih =>
    have hpart := splitOn_eq_singleton (h part List.mem_cons_self)
    cases parts with
    | nil => rw [List.intercalate_singleton, hpart]
    | cons next later =>
      rw [List.intercalate_cons_cons, List.append_assoc, List.singleton_append, splitOn_append,
        hpart, ih (by simp) fun other hother => h other (List.mem_cons_of_mem _ hother)]
      rfl

/-- A character `c` that neither `parts` nor the `separator` have is not in the text put
together. -/
theorem notMem_intercalate {c separator : Char} {parts : List (List Char)} (hne : c ≠ separator)
    (h : ∀ part ∈ parts, c ∉ part) : c ∉ List.intercalate [separator] parts := by
  induction parts with
  | nil => simp
  | cons part parts ih =>
    have hpart := h part List.mem_cons_self
    cases parts with
    | nil => rwa [List.intercalate_singleton]
    | cons next later =>
      rw [List.intercalate_cons_cons, List.append_assoc, List.mem_append, List.mem_append,
        List.mem_singleton, not_or, not_or]
      exact ⟨hpart, hne, ih fun other hother => h other (List.mem_cons_of_mem _ hother)⟩

/-- A text `start` that lacks `c` starts `before ++ c :: after` exactly if it starts `before`. -/
theorem prefix_append_cons_iff {c : Char} {start before after : List Char} (h : c ∉ start) :
    start <+: before ++ c :: after ↔ start <+: before := by
  refine ⟨fun hstart => ?_, fun hstart => hstart.trans (List.prefix_append _ _)⟩
  induction start generalizing before with
  | nil => exact List.nil_prefix
  | cons d start ih =>
    obtain ⟨hne, hrest⟩ := not_or.1 (mt List.mem_cons.2 h)
    cases before with
    -- the character itself would have to be the first one of `start`
    | nil => exact absurd (List.cons_prefix_cons.1 hstart).1 (Ne.symm hne)
    | cons e before =>
      obtain ⟨heq, htail⟩ := List.cons_prefix_cons.1 hstart
      exact List.cons_prefix_cons.2 ⟨heq, ih hrest htail⟩

/-- A `word` that starts `text` and lacks the `separator` starts the first part. -/
theorem exists_cons_of_prefix {separator : Char} {word text : List Char} (hword : separator ∉ word)
    (h : word <+: text) : ∃ part parts, splitOn separator text = part :: parts ∧ word <+: part := by
  induction word generalizing text with
  | nil =>
    obtain ⟨part, parts, hparts⟩ := List.exists_cons_of_ne_nil (splitOn_ne_nil separator text)
    exact ⟨part, parts, hparts, List.nil_prefix⟩
  | cons c word ih =>
    obtain ⟨hne, hrest⟩ := not_or.1 (mt List.mem_cons.2 hword)
    cases text with
    | nil => exact absurd (List.prefix_nil.1 h) (List.cons_ne_nil c word)
    | cons d text =>
      -- the first character is no separator, so the first part begins with it
      obtain ⟨rfl, htail⟩ := List.cons_prefix_cons.1 h
      obtain ⟨part, parts, hparts, hprefix⟩ := ih hrest htail
      refine ⟨c :: part, parts, ?_, List.cons_prefix_cons.2 ⟨rfl, hprefix⟩⟩
      rw [splitOn, if_neg (Ne.symm hne), hparts]

/-- A `word` that stands in `text` and lacks the `separator` stands in one of the parts. -/
theorem exists_infix_part {separator : Char} {word text : List Char} (hword : separator ∉ word)
    (h : word <:+: text) : ∃ part ∈ splitOn separator text, word <:+: part := by
  induction text with
  | nil => exact ⟨[], by simp [splitOn], h⟩
  | cons c text ih =>
    rcases List.infix_cons_iff.1 h with hprefix | hinside
    · obtain ⟨part, parts, hparts, hstart⟩ := exists_cons_of_prefix hword hprefix
      exact ⟨part, by simp [hparts], hstart.isInfix⟩
    · obtain ⟨part, hpart, hin⟩ := ih hinside
      rw [splitOn]
      split
      · exact ⟨part, List.mem_cons_of_mem _ hpart, hin⟩
      · -- the first character goes to the first part
        split
        · rename_i hnone
          exact absurd hnone (splitOn_ne_nil separator text)
        · rename_i first parts hparts
          rw [hparts] at hpart
          rcases List.mem_cons.1 hpart with rfl | hpart
          · exact ⟨c :: part, List.mem_cons_self, hin.trans (List.suffix_cons c part).isInfix⟩
          · exact ⟨part, List.mem_cons_of_mem _ hpart, hin⟩

/-- A `word` that lacks `c` does not reach to it at the start of a text. -/
theorem infix_of_infix_cons {c : Char} {word text : List Char} (hc : c ∉ word)
    (h : word <:+: c :: text) : word <:+: text := by
  rcases List.infix_cons_iff.1 h with hprefix | hinside
  · cases word with
    | nil => exact List.nil_infix
    | cons d word => exact absurd (List.cons_prefix_cons.1 hprefix).1 (by rintro rfl; simp at hc)
  · exact hinside

/-- A `word` that lacks `c` does not reach to it at the end of a text. -/
theorem infix_of_infix_concat {c : Char} {word text : List Char} (hc : c ∉ word)
    (h : word <:+: text ++ [c]) : word <:+: text := by
  rw [← List.reverse_infix] at h ⊢
  rw [List.reverse_append] at h
  exact infix_of_infix_cons (by simpa using hc) h

/-- A `word` that lacks `c` stands on one side of it. -/
theorem infix_append_cons_cases {c : Char} {word start rest : List Char} (hc : c ∉ word)
    (h : word <:+: start ++ c :: rest) : word <:+: start ∨ word <:+: rest := by
  induction start with
  | nil => exact .inr (infix_of_infix_cons hc h)
  | cons d start ih =>
    rcases List.infix_cons_iff.1 h with hprefix | hinside
    · have hstart : word <+: d :: start := (prefix_append_cons_iff hc).1 hprefix
      exact .inl hstart.isInfix
    · exact (ih hinside).imp_left fun hin => hin.trans (List.suffix_cons d start).isInfix

/-- A `word` without blanks that stands in `text` still stands in it when the blanks at its start
are gone. -/
theorem infix_dropWhile {word text : List Char} (hne : word ≠ [])
    (hword : ∀ c ∈ word, isBlank c = false) (h : word <:+: text) :
    word <:+: text.dropWhile isBlank := by
  induction text with
  | nil => exact h
  | cons c text ih =>
    rw [List.dropWhile_cons]
    split
    · rename_i hblank
      rcases List.infix_cons_iff.1 h with hprefix | hinside
      · -- the word would start with the blank
        obtain ⟨d, word, rfl⟩ := List.exists_cons_of_ne_nil hne
        obtain ⟨rfl, -⟩ := List.cons_prefix_cons.1 hprefix
        exact absurd hblank (by simp [hword d List.mem_cons_self])
      · exact ih hinside
    · exact h

/-- A `word` without blanks that stands in `text` still stands in it when the blanks at its ends are
gone. -/
theorem infix_trim {word text : List Char} (hne : word ≠ [])
    (hword : ∀ c ∈ word, isBlank c = false) (h : word <:+: text) : word <:+: trim text := by
  have hstart : word <:+: trimStart text := infix_dropWhile hne hword h
  have hend := infix_dropWhile (by simpa using hne) (by simpa using hword) hstart.reverse
  rw [trim, trimEnd]
  simpa using hend.reverse

/-- A `text` without blanks has none at its ends. -/
theorem trim_eq_self {text : List Char} (h : ∀ c ∈ text, isBlank c = false) : trim text = text := by
  have hdrop : ∀ chars : List Char, (∀ c ∈ chars, isBlank c = false) →
      chars.dropWhile isBlank = chars := by
    intro chars hchars
    cases chars with
    | nil => rfl
    | cons c chars => simp [hchars c List.mem_cons_self]
  rw [trim, trimStart, hdrop text h, trimEnd, hdrop text.reverse (by simpa using h),
    List.reverse_reverse]

/-- A `place` of `start ++ text` lies in `text`, or starts in `start`. -/
theorem suffix_append_cases {place start text : List Char} (h : place <:+ start ++ text) :
    place <:+ text ∨ ∃ front, front ≠ [] ∧ front <:+ start ∧ place = front ++ text := by
  obtain ⟨before, hplace⟩ := h
  rcases List.append_eq_append_iff.1 hplace with ⟨front, hfront, rfl⟩ | ⟨more, -, hmore⟩
  · by_cases hempty : front = []
    · exact .inl (by simp [hempty])
    · exact .inr ⟨front, hempty, ⟨before, hfront.symm⟩, rfl⟩
  · exact .inl ⟨more, hmore.symm⟩

/-- A `place` that starts with `c` lies in `text`, behind `c :: start` with no other `c` in it,
unless it is the start of the whole. -/
theorem suffix_cons_append_cases {c : Char} {place start text : List Char} (hc : c ∉ start)
    (hplace : [c] <+: place) (h : place <:+ c :: start ++ text) :
    place = c :: start ++ text ∨ place <:+ text := by
  rcases suffix_append_cases h with hplace | ⟨front, hne, hfront, rfl⟩
  · exact .inr hplace
  · obtain ⟨d, front, rfl⟩ := List.exists_cons_of_ne_nil hne
    obtain ⟨rfl, -⟩ := List.cons_prefix_cons.1 hplace
    rcases List.suffix_cons_iff.1 hfront with heq | hinside
    · exact .inl (by rw [heq])
    · exact absurd (hinside.subset List.mem_cons_self) hc

/-- A `pattern` that does not contain `word`, and whose ends do not belong to `word`, stands on one
side of it. -/
theorem append_eq_append_around {word pattern start rest before after : List Char}
    (hne : pattern ≠ []) (hinside : ¬ word <:+: pattern) (hhead : pattern.head hne ∉ word)
    (hlast : pattern.getLast hne ∉ word)
    (h : start ++ word ++ rest = before ++ pattern ++ after) :
    (∃ middle, start = before ++ pattern ++ middle ∧ after = middle ++ word ++ rest) ∨
      ∃ middle, rest = middle ++ pattern ++ after ∧ before = start ++ word ++ middle := by
  simp only [List.append_assoc] at h ⊢
  rcases List.append_eq_append_iff.1 h with ⟨more, rfl, hmore⟩ | ⟨more, rfl, hmore⟩
  · rcases List.append_eq_append_iff.1 hmore with ⟨middle, rfl, hrest⟩ | ⟨inner, rfl, hrest⟩
    · exact .inr ⟨middle, hrest, rfl⟩
    · cases inner with
      | nil => exact .inr ⟨[], by simpa using hrest.symm, by simp⟩
      | cons c inner =>
        -- the pattern would start in the word
        obtain ⟨d, pattern, rfl⟩ := List.exists_cons_of_ne_nil hne
        rw [List.cons_append, List.cons_append, List.cons.injEq] at hrest
        exact absurd (by simp [hrest.1]) hhead
  · rcases List.append_eq_append_iff.1 hmore with ⟨middle, rfl, hafter⟩ | ⟨inner, rfl, hafter⟩
    · exact .inl ⟨middle, rfl, hafter⟩
    · by_cases hempty : inner = []
      · exact .inl ⟨[], by simp [hempty], by simpa [hempty] using hafter.symm⟩
      · rcases List.append_eq_append_iff.1 hafter with ⟨tail, rfl, -⟩ | ⟨tail, rfl, -⟩
        · exact absurd ⟨more, tail, by simp⟩ hinside
        · -- the pattern would end in the word
          rw [List.getLast_append_of_ne_nil _ hempty] at hlast
          exact absurd (List.mem_append_left _ (List.getLast_mem hempty)) hlast

end Stencil.Text
