import Stencil.Alias
import Stencil.Error
import Stencil.Text.Blank

/-!
# Finding regions in a text

A template is scanned for one name at a time, from left to right. An open tag for the name is
`[`, the sigil and the name; whatever else stands before the next `]` belongs to the heading.
The region reaches to the first close tag of its family. If the heading binds transforms, an
alias takes the place of the region and the scan goes on behind it; else the scan goes on behind
the bracket of the open tag, because one name may start another.

Main definitions:

* `Site`: an open tag and the parts of the text around it; `locate` finds the next one.
* `Search.boundNames`: what a heading binds.
* `Search.scan`: all regions that a name binds in a text.

Main statements:

* `eq_of_locate`: the parts of a site make up the text.
* `rest_length_lt_of_locate`, `after_length_lt_of_locate`: each round of a scan has less text
  before it than the round before, so the scan ends.
-/

namespace Stencil

/-- An open tag, and the region that it opens. -/
structure Site where
  /-- The text before the open tag. -/
  before : List Char
  /-- The text behind the bracket of the open tag. -/
  rest : List Char
  /-- The text between the sigil and the next `]`. -/
  heading : List Char
  /-- The text between that `]` and the close tag. -/
  literal : List Char
  /-- The text behind the close tag. -/
  after : List Char

namespace Site

/-- The text before the first open tag and the text behind its bracket. A close tag is no open
tag, even if it starts like one. -/
def splitOpen (opening close : List Char) : List Char → Option (List Char × List Char)
  | [] => none
  | c :: rest =>
    if opening.isPrefixOf (c :: rest) && !close.isPrefixOf (c :: rest) then some ([], rest)
    else (splitOpen opening close rest).map fun (before, behind) => (c :: before, behind)

/-- The next site for `name` in a text, if there is an open tag for it. -/
def locate (family : Family) (name : String) (text : List Char) :
    Except SetupError (Option Site) :=
  let opening := family.openPrefix name.toList
  let close := family.closeTag
  match splitOpen opening close text with
  | none => .ok none
  | some (before, rest) =>
    -- the first close tag ends the region, whatever other tags stand before it
    match Text.splitFirst close ('[' :: rest) with
    | none => .error (.missingEndTag (String.ofList opening) (String.ofList close))
    | some (inner, after) =>
      match Text.splitFirst [']'] inner with
      | none => .error (.missingStartTerminator (String.ofList opening))
      | some (tag, literal) => .ok (some ⟨before, rest, tag.drop 2, literal, after⟩)

theorem eq_of_splitOpen {name : List Char} {family : Family} {close text before rest : List Char}
    (h : splitOpen (family.openPrefix name) close text = some (before, rest)) :
    text = before ++ '[' :: rest ∧ family.openPrefix name <+: '[' :: rest ∧
      ¬close <+: '[' :: rest := by
  induction text generalizing before with
  | nil => simp [splitOpen] at h
  | cons c tail ih =>
    simp only [splitOpen] at h
    split at h
    · rename_i hopen
      simp only [Bool.and_eq_true, Bool.not_eq_true', List.isPrefixOf_iff_prefix] at hopen
      simp only [Option.some.injEq, Prod.mk.injEq] at h
      obtain ⟨rfl, rfl⟩ := h
      have hc : c = '[' := by
        obtain ⟨more, hmore⟩ := hopen.1
        simp only [Family.openPrefix, List.cons_append, List.cons.injEq] at hmore
        exact hmore.1.symm
      subst hc
      refine ⟨rfl, hopen.1, fun hclose => ?_⟩
      rw [List.isPrefixOf_iff_prefix.2 hclose] at hopen
      simp at hopen
    · obtain ⟨⟨b, r⟩, hs, heq⟩ := Option.map_eq_some_iff.1 h
      simp only [Prod.mk.injEq] at heq
      obtain ⟨rfl, rfl⟩ := heq
      obtain ⟨htail, hopen⟩ := ih hs
      exact ⟨by rw [htail]; rfl, hopen⟩

/-- The parts of a site make up the text, and the region ends with the close tag. -/
theorem eq_of_locate {family : Family} {name : String} {text : List Char} {site : Site}
    (h : locate family name text = .ok (some site)) :
    text = site.before ++ '[' :: site.rest ∧
      ∃ tag, '[' :: site.rest = tag ++ ']' :: site.literal ++ family.closeTag ++ site.after ∧
        site.heading = tag.drop 2 := by
  simp only [locate] at h
  split at h
  · simp at h
  · rename_i before rest hopen
    split at h
    · simp at h
    · rename_i inner after hclose
      split at h
      · simp at h
      · rename_i tag literal htag
        simp only [Except.ok.injEq, Option.some.injEq] at h
        subst h
        refine ⟨(eq_of_splitOpen hopen).1, tag, ?_, rfl⟩
        have hinner := Text.eq_append_of_splitFirst htag
        have hrest := Text.eq_append_of_splitFirst hclose
        rw [hrest, hinner]
        simp

theorem rest_length_lt_of_locate {family : Family} {name : String} {text : List Char}
    {site : Site} (h : locate family name text = .ok (some site)) :
    site.rest.length < text.length := by
  rw [(eq_of_locate h).1]
  simp
  omega

theorem after_length_lt_of_locate {family : Family} {name : String} {text : List Char}
    {site : Site} (h : locate family name text = .ok (some site)) :
    site.after.length < text.length := by
  obtain ⟨htext, tag, hrest, -⟩ := eq_of_locate h
  have hlength := congrArg List.length hrest
  rw [htext]
  simp [Family.closeTag] at hlength ⊢
  omega

end Site

/-- A region that an alias has taken the place of. -/
structure Region where
  /-- The heading, as it is written. -/
  heading : String
  /-- The transforms that the heading names, in order. -/
  names : List String
  /-- The alias in the place of the region. -/
  aliasName : String
  /-- The text inside the region. -/
  literal : String
deriving DecidableEq, Repr

/-- What a scan looks for. -/
structure Search where
  /-- The family of the regions. -/
  family : Family
  /-- The name that open tags start with. -/
  name : String
  /-- The names that headings may list. -/
  registered : List String
  /-- The text that aliases must not occur in. -/
  avoid : List Char

/-- The outcome of a scan. -/
structure Scanned where
  /-- The text, with aliases in the place of regions. -/
  text : List Char
  /-- The regions, in the order in which they were found. -/
  regions : List Region
  /-- Where further aliases come from. -/
  pool : AliasPool

namespace Scanned

/-- Puts text that was scanned before in front. -/
def behind (start : List Char) (scanned : Scanned) : Scanned :=
  { scanned with text := start ++ scanned.text }

/-- Puts a region that was found before, and its alias, in front. -/
def withRegion (start : List Char) (region : Region) (scanned : Scanned) : Scanned :=
  { scanned with
    text := start ++ region.aliasName.toList ++ scanned.text
    regions := region :: scanned.regions }

end Scanned

namespace Search

/-- The names that a separated heading lists: the parts, without the blanks around them and
without blank parts. -/
def listedNames (separator : Char) (heading : List Char) : List String :=
  ((Text.splitOn separator heading).map Text.trim |>.filter (· ≠ [])).map String.ofList

/-- The names that a heading binds, or `none` if it is passed over. A heading with
separators binds the names that it lists, all of which have to be registered; any other one has
to be the name that is looked for. -/
def boundNames (search : Search) (heading : List Char) :
    Except SetupError (Option (List String)) :=
  match search.family.separator?.filter heading.contains with
  | some separator =>
    let names := listedNames separator heading
    match names.find? fun name => !search.registered.contains name with
    | some name => .error (.unknownTransform search.family name (String.ofList heading))
    | none => .ok (some names)
  | none =>
    if Text.trim heading = search.name.toList then .ok (some [search.name]) else .ok none

/-- The first of the names that is bound already where it may be bound only once. -/
def clash? (search : Search) (names : List String) (earlier : List Region) : Option String :=
  if search.family.bindsOnce then
    names.find? fun name => earlier.any fun region => region.names.contains name
  else none

/-- The regions that the name binds in a text, `earlier` being the regions found before. -/
def scan (search : Search) (earlier : List Region) (pool : AliasPool) (text : List Char) :
    Except SetupError Scanned :=
  match h : Site.locate search.family search.name text with
  | .error error => .error error
  | .ok none => .ok ⟨text, [], pool⟩
  | .ok (some site) =>
    match search.boundNames site.heading with
    | .error error => .error error
    | .ok none =>
      -- another name or running text: only the bracket is passed over, so that an open tag
      -- inside the heading is still found
      have := Site.rest_length_lt_of_locate h
      (search.scan earlier pool site.rest).map (·.behind (site.before ++ ['[']))
    | .ok (some names) =>
      -- no alias is drawn for a region that is refused
      match search.clash? names earlier with
      | some name => .error (.duplicateBinding search.family name)
      | none =>
        match pool.fresh? search.avoid with
        | none => .error .noFreshAlias
        | some (aliasName, pool) =>
          have := Site.after_length_lt_of_locate h
          let region : Region :=
            ⟨String.ofList site.heading, names, aliasName, String.ofList site.literal⟩
          (search.scan (earlier ++ [region]) pool site.after).map
            (·.withRegion site.before region)
termination_by text.length

end Search

end Stencil
