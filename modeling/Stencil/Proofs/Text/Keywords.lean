import Stencil.Corpus
import Stencil.Proofs.Text.Words

/-!
# Manifests as texts

A manifest lists a file on each line, and a keyword is the name of its file without the ending. So
keywords come back from a manifest that lists their files, however its lines are spaced and ended:
only one ending is taken from a name, so a keyword that has the ending itself keeps it, and blanks
before the ending belong to the keyword.

Main definitions:

* `Manifest.IsKeyword`: what can be a keyword.
* `Manifest.Line`, `Manifest.LineEnd`, `Manifest.Listing`: how a manifest is written.

Main statements:

* `Manifest.keywordOf_fileName`: one ending is taken from a name, and no more.
* `Manifest.Listing.entries_text`: a manifest has an entry for each keyword.
* `Manifest.parse_listing`: keywords come back from a manifest, and they alone are resolved.
-/

namespace Stencil

namespace Text

/-- A line that holds `blanks` only has no entry. -/
theorem entries_blank {blanks : List Char} (h : ∀ c ∈ blanks, isBlank c = true ∧ c ≠ '\n') :
    entries blanks = [] := by
  have hline : '\n' ∉ blanks := fun hmem => (h _ hmem).2 rfl
  have hstart : trimStart blanks = [] := trimStart_eq_nil_iff.2 fun c hc => (h c hc).1
  have htrim : trim blanks = [] := by
    rw [trim, hstart]
    rfl
  simp [entries, splitOn_eq_singleton hline, htrim]

end Text

namespace Manifest

/-- What can be a keyword: something on one line that does not start with a blank. It may end with
blanks, because the ending of the file name stands behind them. -/
structure IsKeyword (keyword : String) : Prop where
  /-- It is not empty. -/
  ne_empty : keyword ≠ ""
  /-- It does not start with a blank. -/
  start : ∀ c ∈ keyword.toList.head?, Text.isBlank c = false
  /-- It has no line feed. -/
  newline_notMem : '\n' ∉ keyword.toList

theorem isKeyword_iff {keyword : String} :
    IsKeyword keyword ↔ keyword ≠ "" ∧
      keyword.toList.head?.all (fun c => !Text.isBlank c) = true ∧ '\n' ∉ keyword.toList := by
  have hstart : keyword.toList.head?.all (fun c => !Text.isBlank c) = true ↔
      ∀ c ∈ keyword.toList.head?, Text.isBlank c = false := by
    simp [Option.all_eq_true]
  rw [hstart]
  exact ⟨fun h => ⟨h.ne_empty, h.start, h.newline_notMem⟩, fun h => ⟨h.1, h.2.1, h.2.2⟩⟩

/-- Whether a text can be a keyword is decidable. -/
instance (keyword : String) : Decidable (IsKeyword keyword) :=
  decidable_of_iff' _ isKeyword_iff

/-- The name of the file with `keyword`. -/
def fileName (keyword : String) : List Char :=
  keyword.toList ++ extension

/-- The name of the file with `keyword` can be an entry, even if the keyword ends with a blank. -/
theorem IsKeyword.isEntry_fileName {keyword : String} (h : IsKeyword keyword) :
    Text.IsEntry (fileName keyword) where
  ne_nil := by simp [fileName, extension]
  start c hc := by
    have hne : keyword.toList ≠ [] := by simpa using h.ne_empty
    rw [fileName, List.head?_append_of_ne_nil _ hne] at hc
    exact h.start c hc
  stop c hc := by
    -- the last character is that of the ending
    have hlast : 'y' = c := by simpa [fileName, extension] using hc
    rw [← hlast]
    decide
  newline_notMem := by simpa [fileName, extension] using h.newline_notMem

/-- One ending is taken from the name of the file with `keyword`, and no more. -/
theorem keywordOf_fileName (keyword : String) : keywordOf (fileName keyword) = keyword.toList := by
  have hsuffix : extension.isSuffixOf (fileName keyword) = true :=
    List.isSuffixOf_iff_suffix.2 (List.suffix_append _ _)
  have hlength : (fileName keyword).length - extension.length = keyword.toList.length := by
    rw [fileName, List.length_append]
    omega
  rw [keywordOf, if_pos hsuffix, hlength, fileName, List.take_left]

/-! ### How manifests are written -/

/-- Blanks that stand on one line. -/
abbrev Blanks : Type :=
  { blanks : List Char // ∀ c ∈ blanks, Text.isBlank c = true ∧ c ≠ '\n' }

/-- A line of a manifest, without its end. -/
inductive Line where
  /-- A line on which no file is listed. -/
  | blank (blanks : Blanks)
  /-- The name of the file with a keyword, and the blanks before and after it. -/
  | file (before : Blanks) (keyword : String) (after : Blanks)

namespace Line

/-- The text of a line. -/
def text : Line → List Char
  | blank blanks => blanks.1
  | file before keyword after => before.1 ++ fileName keyword ++ after.1

/-- The keywords on a line; there is at most one. -/
def keywords : Line → List String
  | blank _ => []
  | file _ keyword _ => [keyword]

/-- The entry on `line` is the name of the file, also when `more` blanks stand behind it. -/
theorem entries_text_append {line : Line} (hline : ∀ keyword ∈ line.keywords, IsKeyword keyword)
    (more : Blanks) : Text.entries (line.text ++ more.1) = line.keywords.map fileName := by
  have hmore : ∀ blanks : Blanks, ∀ c ∈ blanks.1 ++ more.1, Text.isBlank c = true ∧ c ≠ '\n' :=
    fun blanks => List.forall_mem_append.2 ⟨blanks.2, more.2⟩
  cases line with
  | blank blanks => exact Text.entries_blank (hmore blanks)
  | file before keyword after =>
    have hkeyword : IsKeyword keyword := hline keyword List.mem_cons_self
    rw [text, List.append_assoc]
    exact Text.entries_padded hkeyword.isEntry_fileName before.2 (hmore after)

end Line

/-- How a line is ended. -/
inductive LineEnd where
  /-- By a line feed. -/
  | feed
  /-- By a carriage return and a line feed. -/
  | returnFeed

/-- What stands before the line feed at the end of a line. -/
def LineEnd.before : LineEnd → Blanks
  | feed => ⟨[], by simp⟩
  | returnFeed => ⟨['\r'], List.forall_mem_singleton.2 (by decide)⟩

/-- A manifest as it is written: lines that are ended, and a last one that is not. The last line may
be empty, so that all lines with a file are ended. -/
structure Listing where
  /-- The lines that are ended, and how each of them is. -/
  ended : List (Line × LineEnd)
  /-- The last line. -/
  last : Line

namespace Listing

/-- Lines that are `ended`, and the text `rest` behind them. -/
def write (ended : List (Line × LineEnd)) (rest : List Char) : List Char :=
  ended.foldr (fun line rest => line.1.text ++ line.2.before.1 ++ '\n' :: rest) rest

/-- The text of the manifest `listing`. -/
def text (listing : Listing) : String :=
  String.ofList (write listing.ended listing.last.text)

/-- The keywords whose files `listing` lists, in order. -/
def keywords (listing : Listing) : List String :=
  listing.ended.flatMap (fun line => line.1.keywords) ++ listing.last.keywords

/-- The lines of `ended` are read one by one, and then `rest` is. -/
theorem entries_write (ended : List (Line × LineEnd)) (rest : List Char) :
    Text.entries (write ended rest) =
      ended.flatMap (fun line => Text.entries (line.1.text ++ line.2.before.1)) ++
        Text.entries rest := by
  induction ended with
  | nil => rfl
  | cons line ended ih =>
    show Text.entries (line.1.text ++ line.2.before.1 ++ '\n' :: write ended rest) = _
    rw [Text.entries_append, ih, List.flatMap_cons, List.append_assoc]

/-- The entries of `listing` are the names of the files with its keywords. -/
theorem entries_text {listing : Listing} (h : ∀ keyword ∈ listing.keywords, IsKeyword keyword) :
    Text.entries listing.text.toList = listing.keywords.map fileName := by
  obtain ⟨hended, hlast⟩ := List.forall_mem_append.1 h
  have hline : ∀ line ∈ listing.ended,
      Text.entries (line.1.text ++ line.2.before.1) = line.1.keywords.map fileName := by
    intro line hmem
    refine Line.entries_text_append (fun keyword hkeyword => ?_) _
    exact hended keyword (List.mem_flatMap.2 ⟨line, hmem, hkeyword⟩)
  have hrest : Text.entries listing.last.text = listing.last.keywords.map fileName := by
    simpa using Line.entries_text_append hlast ⟨[], by simp⟩
  rw [text, String.toList_ofList, entries_write, hrest, List.flatMap_congr hline, keywords,
    List.map_append, List.map_flatMap]

end Listing

/-- The keywords of a `listing` come back from its text, which lists their files, one on each line:
in their order, as often as they are listed, and whatever they end with. The lines may be ended by
line feeds or by carriage returns and line feeds, there may be blanks around each entry, and blank
lines anywhere. Then `resolve keyword` gives the file of `keyword` below `root` if it is one of
`listing.keywords`; otherwise it is refused, with all of these in the error. -/
theorem parse_listing (root : Path) {listing : Listing}
    (h : ∀ keyword ∈ listing.keywords, IsKeyword keyword) :
    parse root listing.text = ⟨root, listing.keywords⟩ ∧
      ∀ keyword, (parse root listing.text).resolve keyword =
        if keyword ∈ listing.keywords then .ok (root.join ⟨keyword ++ ".pay"⟩)
        else .error (.unknownCorpus keyword listing.keywords) := by
  have hparse : parse root listing.text = ⟨root, listing.keywords⟩ := by
    rw [parse, Listing.entries_text h, List.map_map]
    -- a keyword is read back from its own file name
    have hback : (fun entry => String.ofList (keywordOf entry)) ∘ fileName = id := by
      funext keyword
      rw [Function.comp_apply, keywordOf_fileName, String.ofList_toList, id_eq]
    rw [hback, List.map_id]
  refine ⟨hparse, fun keyword => ?_⟩
  rw [hparse]
  by_cases hmem : keyword ∈ listing.keywords
  · have hfound : ¬ (keyword = "" ∨ keyword ∉ listing.keywords) :=
      not_or.2 ⟨(h keyword hmem).ne_empty, not_not.2 hmem⟩
    rw [resolve, if_neg hfound, if_pos hmem]
    rfl
  · rw [resolve, if_pos (.inr hmem), if_neg hmem]

/-- A keyword that has the ending itself, one that ends with a blank and one that is listed twice,
with blanks and a blank line between them. -/
theorem parse_listing_doubled_ending :
    let none : Blanks := ⟨[], by simp⟩
    let wide : Blanks := ⟨['\u3000', '\t'],
      List.forall_mem_cons.2 ⟨by decide, List.forall_mem_singleton.2 (by decide)⟩⟩
    let listing : Listing :=
      { ended := [(.file none "words.pay" wide, .returnFeed), (.blank wide, .feed),
          (.file wide "3 letters " none, .returnFeed), (.file none "words.pay" none, .feed)]
        last := .file none "a\rz" LineEnd.returnFeed.before }
    let keywords := ["words.pay", "3 letters ", "words.pay", "a\rz"]
    (∀ keyword ∈ listing.keywords, IsKeyword keyword) ∧
      listing.text =
        "words.pay.pay\u3000\t\r\n\u3000\t\n\u3000\t3 letters .pay\r\nwords.pay.pay\na\rz.pay\r" ∧
      parse ⟨"/c"⟩ listing.text = ⟨⟨"/c"⟩, keywords⟩ ∧
      (parse ⟨"/c"⟩ listing.text).resolve "words.pay" = .ok ⟨"/c/words.pay.pay"⟩ ∧
      (parse ⟨"/c"⟩ listing.text).resolve "words" = .error (.unknownCorpus "words" keywords) := by
  intro none wide listing keywords
  have hkeywords : ∀ keyword ∈ listing.keywords, IsKeyword keyword := by
    have hall : keywords.all (fun keyword => decide (IsKeyword keyword)) = true := by decide
    exact fun keyword hmem => of_decide_eq_true (List.all_eq_true.1 hall keyword hmem)
  obtain ⟨hparse, hresolve⟩ := parse_listing ⟨"/c"⟩ hkeywords
  refine ⟨hkeywords, by decide, hparse, ?_, ?_⟩
  · rw [hresolve]
    rfl
  · rw [hresolve]
    rfl

end Manifest

end Stencil
