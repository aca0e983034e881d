import Mathlib.Data.List.DropRight
import Mathlib.Data.List.Forall2
import Stencil.Proofs.Text.Splitting
import Stencil.Wordlist

/-!
# Wordlists as texts

A wordlist is read line by line: the blanks at the two ends of a line are dropped, and lines that
hold nothing else are passed over. So the words of a text lie each on one line and have no blanks at
their ends, and words of this kind that are written on lines of their own are read again. It does
not matter whether a carriage return stands before a line feed, nor whether the last line is ended.

Main definitions:

* `Text.lines`: the lines of a text, without their ends.
* `Text.IsEntry`: what can be an entry of a line-oriented text.

Main statements:

* `Text.trim_padded`: blanks around a text that has none at its ends.
* `Text.entries_eq_lines`: entries are what is left of the lines.
* `Text.isEntry_of_mem_entries`, `Text.entries_intercalate`: reading gives entries, and entries that
  are written on lines of their own are read again.
* `Wordlist.words_of_lines`: the laws of wordlists.
-/

namespace Stencil

namespace Text

/-! ### Blanks at the ends -/

theorem trimEnd_eq_rdropWhile (text : List Char) : trimEnd text = text.rdropWhile isBlank := rfl

/-- The `blanks` at the end of a text are dropped. -/
theorem trimEnd_append {blanks : List Char} (h : ∀ c ∈ blanks, isBlank c = true)
    (text : List Char) : trimEnd (text ++ blanks) = trimEnd text := by
  have hreverse : ∀ c ∈ blanks.reverse, isBlank c = true := by simpa using h
  rw [trimEnd, List.reverse_append, List.dropWhile_append_of_pos hreverse, trimEnd]

/-- The `blanks` at the end of `text` are dropped, also when nothing else is in it. -/
theorem trim_append {blanks : List Char} (h : ∀ c ∈ blanks, isBlank c = true)
    (text : List Char) : trim (text ++ blanks) = trim text := by
  rw [trim, trim, trimStart, trimStart, List.dropWhile_append]
  split
  · rename_i hempty
    rw [List.isEmpty_iff] at hempty
    have hblanks : blanks.dropWhile isBlank = [] := trimStart_eq_nil_iff.2 h
    rw [hempty, hblanks]
  · exact trimEnd_append h _

/-- What can be an entry of a line-oriented text: something on one line that neither starts nor ends
with a blank. -/
structure IsEntry (entry : List Char) : Prop where
  /-- It is not empty. -/
  ne_nil : entry ≠ []
  /-- It does not start with a blank. -/
  start : ∀ c, entry.head? = some c → isBlank c = false
  /-- It does not end with a blank. -/
  stop : ∀ c, entry.getLast? = some c → isBlank c = false
  /-- It has no line feed. -/
  newline_notMem : '\n' ∉ entry

/-- If there are blanks around `entry`, the entry is left. -/
theorem trim_padded {before entry after : List Char} (hentry : IsEntry entry)
    (hbefore : ∀ c ∈ before, isBlank c = true) (hafter : ∀ c ∈ after, isBlank c = true) :
    trim (before ++ entry ++ after) = entry := by
  obtain ⟨c, rest, hcons⟩ := List.exists_cons_of_ne_nil hentry.ne_nil
  -- the entry begins and ends with characters that are not blank
  have hhead : isBlank c = false := hentry.start c (by rw [hcons, List.head?_cons])
  have hstart : trimStart (before ++ entry) = entry := by
    rw [trimStart, List.dropWhile_append_of_pos hbefore, hcons,
      List.dropWhile_cons_of_neg (by simp [hhead])]
  have hend : trimEnd entry = entry := by
    rw [trimEnd_eq_rdropWhile, List.rdropWhile_eq_self_iff]
    intro hne
    simpa using hentry.stop _ (List.getLast?_eq_some_getLast hne)
  rw [trim_append hafter, trim, hstart, hend]

/-- A `text` that is trimmed starts with no blank. -/
theorem isBlank_head_trim {text : List Char} {c : Char} (h : (trim text).head? = some c) :
    isBlank c = false := by
  -- what is left of the end starts as the whole did
  obtain ⟨more, hmore⟩ : trim text <+: trimStart text := List.rdropWhile_prefix _ _
  have hhead : (trimStart text).head? = some c := by
    rw [← hmore, List.head?_append, h, Option.some_or]
  have hnot := List.head?_dropWhile_not isBlank text
  rw [trimStart] at hhead
  rwa [hhead] at hnot

/-- A `text` that is trimmed ends with no blank. -/
theorem isBlank_getLast_trim {text : List Char} {c : Char} (h : (trim text).getLast? = some c) :
    isBlank c = false := by
  have hne : (trimStart text).rdropWhile isBlank ≠ [] := by
    rintro hnil
    rw [trim, trimEnd_eq_rdropWhile, hnil] at h
    cases h
  have hlast := List.rdropWhile_last_not isBlank (trimStart text) hne
  rw [trim, trimEnd_eq_rdropWhile, List.getLast?_eq_some_getLast hne, Option.some.injEq] at h
  rw [h] at hlast
  simpa using hlast

/-! ### Lines -/

/-- No `part` of `text` has the `separator`. -/
theorem notMem_of_mem_splitOn {separator : Char} {text part : List Char}
    (h : part ∈ splitOn separator text) : separator ∉ part := by
  induction text generalizing part with
  | nil =>
    rw [splitOn, List.mem_singleton] at h
    simp [h]
  | cons c rest ih =>
    rw [splitOn] at h
    split at h
    · rcases List.mem_cons.1 h with rfl | h
      · exact List.not_mem_nil
      · exact ih h
    · rename_i hne
      obtain ⟨first, parts, hparts⟩ := List.exists_cons_of_ne_nil (splitOn_ne_nil separator rest)
      rw [hparts] at h ih
      -- the first character goes to the first part
      rcases List.mem_cons.1 h with rfl | h
      · exact mt List.mem_cons.1 (not_or.2 ⟨Ne.symm hne, ih List.mem_cons_self⟩)
      · exact ih (List.mem_cons_of_mem _ h)

/-- The text `line` without a carriage return at its end. -/
def dropReturn (line : List Char) : List Char :=
  if line.getLast? = some '\r' then line.dropLast else line

/-- The lines of `text`, without their ends: a line feed, or a carriage return and a line feed. The
last line need not be ended; then a carriage return at its end belongs to it. -/
def lines (text : List Char) : List (List Char) :=
  let parts := splitOn '\n' text
  parts.dropLast.map dropReturn ++ parts.getLast?.toList.filter (· ≠ [])

/-- A carriage return is a blank, so it makes no difference whether `line` has dropped it before it
is trimmed. -/
theorem trim_dropReturn (line : List Char) : trim (dropReturn line) = trim line := by
  rw [dropReturn]
  split
  · rename_i hlast
    obtain ⟨before, rfl⟩ := List.getLast?_eq_some_iff.1 hlast
    have hreturn : ∀ c ∈ ['\r'], isBlank c = true := List.forall_mem_singleton.2 (by decide)
    rw [List.dropLast_concat, trim_append hreturn]
  · rfl

/-- The entries of `text` are its lines, trimmed, as far as something is left of them. -/
theorem entries_eq_lines (text : List Char) :
    entries text = ((lines text).map trim).filter (· ≠ []) := by
  have hparts := List.dropLast_concat_getLast (splitOn_ne_nil '\n' text)
  have htrimmed : (splitOn '\n' text).dropLast.map (trim ∘ dropReturn) =
      (splitOn '\n' text).dropLast.map trim :=
    List.map_congr_left fun line _ => trim_dropReturn line
  rw [entries, lines, List.getLast?_eq_some_getLast (splitOn_ne_nil '\n' text), Option.toList_some,
    List.map_append, List.filter_append, List.map_map, htrimmed, ← List.filter_append]
  nth_rewrite 1 [← hparts]
  rw [List.map_append, List.filter_append, List.filter_append]
  -- an empty last line holds no entry, whether it counts as a line or not
  by_cases hlast : (splitOn '\n' text).getLast (splitOn_ne_nil '\n' text) = []
  · simp [hlast]
  · simp [hlast]

/-- An `entry` that is read from `text` can be one. -/
theorem isEntry_of_mem_entries {text entry : List Char} (h : entry ∈ entries text) :
    IsEntry entry := by
  obtain ⟨hmem, hne⟩ := List.mem_filter.1 h
  obtain ⟨line, hline, rfl⟩ := List.mem_map.1 hmem
  refine ⟨by simpa using hne, fun c => isBlank_head_trim, fun c => isBlank_getLast_trim, ?_⟩
  -- all that is left of a line stood in it
  intro hnewline
  have hstart : '\n' ∈ trimStart line := (List.rdropWhile_prefix _ _).subset hnewline
  exact notMem_of_mem_splitOn hline ((List.dropWhile_suffix _).subset hstart)

/-- A line that holds `entry` with blanks around it. -/
theorem entries_padded {before entry after : List Char} (hentry : IsEntry entry)
    (hbefore : ∀ c ∈ before, isBlank c = true ∧ c ≠ '\n')
    (hafter : ∀ c ∈ after, isBlank c = true ∧ c ≠ '\n') :
    entries (before ++ entry ++ after) = [entry] := by
  have hline : '\n' ∉ before ++ entry ++ after := by
    simp only [List.mem_append, not_or]
    exact ⟨⟨fun h => (hbefore _ h).2 rfl, hentry.newline_notMem⟩, fun h => (hafter _ h).2 rfl⟩
  have htrim := trim_padded hentry (fun c hc => (hbefore c hc).1) fun c hc => (hafter c hc).1
  rw [entries, splitOn_eq_singleton hline, List.map_singleton, htrim]
  simp [hentry.ne_nil]

/-- If each entry of `list` is written on a line of its own, they are read again. A line may end
with `blanks` before the line feed. -/
theorem entries_intercalate {blanks : List Char}
    (hblanks : ∀ c ∈ blanks, isBlank c = true ∧ c ≠ '\n') {list : List (List Char)}
    (hlist : ∀ entry ∈ list, IsEntry entry) :
    entries ((blanks ++ ['\n']).intercalate list) = list := by
  induction list with
  | nil => rfl
  | cons entry list ih =>
    obtain ⟨hentry, hrest⟩ := List.forall_mem_cons.1 hlist
    have hnone : ∀ c ∈ ([] : List Char), isBlank c = true ∧ c ≠ '\n' := by simp
    cases list with
    | nil =>
      rw [List.intercalate_singleton]
      simpa using entries_padded hentry hnone hnone
    | cons next later =>
      have hsplit : (blanks ++ ['\n']).intercalate (entry :: next :: later) =
          entry ++ blanks ++ '\n' :: (blanks ++ ['\n']).intercalate (next :: later) := by
        rw [List.intercalate_cons_cons]
        simp
      have hline : entries (entry ++ blanks) = [entry] := by
        simpa using entries_padded hentry hnone hblanks
      rw [hsplit, entries_append, hline, ih hrest, List.singleton_append]

/-- The entries of `texts` with line feeds between them are those of one text after the other. -/
theorem entries_intercalate_texts (texts : List (List Char)) :
    entries (['\n'].intercalate texts) = texts.flatMap entries := by
  induction texts with
  | nil => rfl
  | cons text texts ih =>
    cases texts with
    | nil => simp
    | cons next later =>
      rw [List.intercalate_cons_cons, List.append_assoc, List.singleton_append, entries_append, ih,
        List.flatMap_cons (x := text)]

end Text

namespace Wordlist

/-- The words of `texts` with line feeds between them are those of one text after the other. -/
theorem parse_intercalate (texts : List String) :
    parse ("\n".intercalate texts) = texts.flatMap parse := by
  rw [parse, String.toList_intercalate]
  change (Text.entries (['\n'].intercalate (texts.map String.toList))).map String.ofList = _
  rw [Text.entries_intercalate_texts, List.flatMap_map, List.map_flatMap]
  rfl

/-- What is read from the files at `paths` is read from `texts`, one after the other. -/
theorem readAll_eq_flatMap {files : Files} {paths : List Path} {texts : List String}
    (h : List.Forall₂ (fun path text => files.read path = .ok text) paths texts) :
    readAll files paths = .ok (texts.flatMap parse) := by
  induction h with
  | nil => rfl
  | @cons path text paths texts hread _ ih =>
    have hwords : read files path = .ok (parse text) := by
      rw [read, hread]
      rfl
    rw [readAll, hwords, ih, List.flatMap_cons]
    rfl

/-- If `words` are written on lines of their own, each with the same `ending`, they are read
again. -/
theorem parse_intercalate_words {ending : String} (blanks : List Char)
    (hending : ending.toList = blanks ++ ['\n'])
    (hblanks : ∀ c ∈ blanks, Text.isBlank c = true ∧ c ≠ '\n') {words : List String}
    (hwords : ∀ word ∈ words, Text.IsEntry word.toList) :
    parse (ending.intercalate words) = words := by
  have hlist : ∀ entry ∈ words.map String.toList, Text.IsEntry entry := by simpa using hwords
  rw [parse, String.toList_intercalate, hending, Text.entries_intercalate hblanks hlist,
    List.map_map]
  simp [Function.comp_def]

/-- A `word` that is read from `text` can be an entry. -/
theorem isEntry_of_mem_parse {text word : String} (h : word ∈ parse text) :
    Text.IsEntry word.toList := by
  obtain ⟨entry, hentry, rfl⟩ := List.mem_map.1 h
  rw [String.toList_ofList]
  exact Text.isEntry_of_mem_entries hentry

/-- The laws of wordlists. The words of `text` are its lines without the blanks at their ends, as
far as something is left of them; so each `word` is an entry (`Text.IsEntry`), which is not empty,
neither starts nor ends with a blank and has no line feed. The words of `first` and `second` with a
line feed between them are those of the one and then those of the other, wherever the cut falls, and
to read the files at `paths` is to read one text in which their `texts` stand one below the other. A
list of `words` is read again from a text that holds each on a line of its own, whether line feeds
end its lines or carriage returns and line feeds do; so to write down what was read and to read it
once more changes nothing. -/
theorem words_of_lines :
    (∀ text, parse text =
      (((Text.lines text.toList).map Text.trim).filter (· ≠ [])).map String.ofList) ∧
    (∀ text, ∀ word ∈ parse text, Text.IsEntry word.toList) ∧
    (∀ first second, parse (first ++ "\n" ++ second) = parse first ++ parse second) ∧
    (∀ (files : Files) paths texts,
      List.Forall₂ (fun path text => files.read path = .ok text) paths texts →
        readAll files paths = .ok (parse ("\n".intercalate texts))) ∧
    (∀ words : List String, (∀ word ∈ words, Text.IsEntry word.toList) →
      parse ("\n".intercalate words) = words ∧ parse ("\r\n".intercalate words) = words) ∧
    ∀ text, parse ("\n".intercalate (parse text)) = parse text ∧
      parse ("\r\n".intercalate (parse text)) = parse text := by
  have hfeed : ∀ {words : List String}, (∀ word ∈ words, Text.IsEntry word.toList) →
      parse ("\n".intercalate words) = words :=
    fun hwords => parse_intercalate_words [] rfl (by simp) hwords
  have hreturn : ∀ {words : List String}, (∀ word ∈ words, Text.IsEntry word.toList) →
      parse ("\r\n".intercalate words) = words := by
    intro words hwords
    -- a carriage return is a blank at the end of its line
    have hblank : ∀ c ∈ ['\r'], Text.isBlank c = true ∧ c ≠ '\n' :=
      List.forall_mem_singleton.2 (by decide)
    exact parse_intercalate_words ['\r'] rfl hblank hwords
  refine ⟨fun text => ?_, fun text word => isEntry_of_mem_parse, parse_append, ?_, ?_, ?_⟩
  · rw [parse, Text.entries_eq_lines]
  · intro files paths texts hread
    rw [readAll_eq_flatMap hread, parse_intercalate]
  · exact fun words hwords => ⟨hfeed hwords, hreturn hwords⟩
  · intro text
    have hwords : ∀ word ∈ parse text, Text.IsEntry word.toList :=
      fun word hword => isEntry_of_mem_parse hword
    exact ⟨hfeed hwords, hreturn hwords⟩

/-- Two texts cut between a carriage return and its line feed. One has a line of blanks only and a
word with a carriage return inside; they are read the same from two files and when their words are
written down anew. -/
theorem words_of_lines_carriage_returns :
    let first := " admin \n\u3000\n\tlog\rin\r"
    let second := "root\r\n"
    let files : Files := ⟨fun path => if path.text = "a" then .ok first else .ok second⟩
    let words := ["admin", "log\rin", "root"]
    (∀ word ∈ words, Text.IsEntry word.toList) ∧ parse (first ++ "\n" ++ second) = words ∧
      List.Forall₂ (fun path text => files.read path = .ok text) [⟨"a"⟩, ⟨"b"⟩] [first, second] ∧
      readAll files [⟨"a"⟩, ⟨"b"⟩] = .ok words ∧ parse ("\r\n".intercalate words) = words := by
  intro first second files words
  obtain ⟨-, hentries, happend, hfiles, hwritten, -⟩ := words_of_lines
  have hparse : parse (first ++ "\n" ++ second) = words := by
    have hfirst : parse first = ["admin", "log\rin"] := by decide +kernel
    have hsecond : parse second = ["root"] := by decide +kernel
    rw [happend, hfirst, hsecond]
    rfl
  have hwords : ∀ word ∈ words, Text.IsEntry word.toList := hparse ▸ hentries _
  have hread : List.Forall₂ (fun path text => files.read path = .ok text) [⟨"a"⟩, ⟨"b"⟩]
      [first, second] := .cons rfl (.cons rfl .nil)
  refine ⟨hwords, hparse, hread, ?_, (hwritten words hwords).2⟩
  rw [hfiles files _ _ hread, ← hparse]
  rfl

end Wordlist

end Stencil
