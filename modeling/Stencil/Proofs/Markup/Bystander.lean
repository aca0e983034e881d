import Mathlib.Data.List.Infix
import Stencil.Proofs.Markup.Unclosed

/-!
# Names that a template does not use

One more name among the registered ones means one more scan, and one more name that headings may
list. The latter makes no difference to a template that is read without it. The scan comes to all
the tags that the name starts, among them tags of longer names and running text. It passes over
them, as long as each of them has a heading of its own kind and a close tag behind it; only then is
the heading compared with the name.

Main definitions:

* `Mentions`: whether a source names a transform.
* `Whole`: a tag that can be compared with a name.
* `Template.turn?`: the text that the scan for a name starts from.
* `TransformNames.insertAt`: one more name.

Main statements:

* `scan_of_whole`: a scan passes over whole tags that are not its own.
* `scan_of_subset`, `scanNames_of_subset`: more registered names make no difference to a scan that
  succeeds.
* `infix_of_spliced`: what stands in a text with aliases stood in it before.
* `parse_insertAt`: one more name makes no difference.
-/

namespace Stencil

variable {family : Family} {name : String}

/-! ### What a source mentions -/

namespace Family

/-- All families. -/
def all : List Family := persistent :: iterative

theorem mem_all (family : Family) : family ∈ all := by
  cases family <;> decide

end Family

/-- The headings of a family: the texts between `[` with the sigil and the next `]`. -/
def headings (family : Family) (source : List Char) : List (List Char) :=
  source.tails.filterMap fun place =>
    if ['[', family.sigil].isPrefixOf place then
      (Text.splitFirst [']'] (place.drop 2)).map Prod.fst
    else none

theorem mem_headings_of_infix {heading source : List Char} (hbracket : ']' ∉ heading)
    (h : '[' :: family.sigil :: heading ++ [']'] <:+: source) :
    heading ∈ headings family source := by
  obtain ⟨before, after, rfl⟩ := h
  have hplace : '[' :: family.sigil :: (heading ++ ']' :: after) <:+
      before ++ ('[' :: family.sigil :: heading ++ [']']) ++ after := ⟨before, by simp⟩
  refine List.mem_filterMap.2 ⟨_, (List.mem_tails _ _).2 hplace, ?_⟩
  rw [if_pos (by simp [List.isPrefixOf])]
  simp only [List.drop_succ_cons, List.drop_zero, Text.splitFirst_singleton hbracket]
  rfl

/-- The text `source` names a transform: a heading of some family reads as `name`, blanks at its
ends aside, or lists it between separators. -/
def Mentions (name : String) (source : List Char) : Prop :=
  ∃ family ∈ Family.all, ∃ heading ∈ headings family source,
    Text.trim heading = name.toList ∨
      ∃ separator ∈ [';', '|'], name ∈ Search.listedNames separator heading

instance (name : String) (source : List Char) : Decidable (Mentions name source) :=
  -- two characters are tried, not all there are
  have (heading : List Char) :
      Decidable (∃ separator ∈ [';', '|'], name ∈ Search.listedNames separator heading) :=
    List.decidableBEx _ _
  inferInstanceAs (Decidable (∃ family ∈ Family.all, ∃ heading ∈ headings family source,
    Text.trim heading = name.toList ∨
      ∃ separator ∈ [';', '|'], name ∈ Search.listedNames separator heading))

/-! ### Tags that are passed over -/

/-- The `tag` that starts a text can be compared with a name: it has a `heading`, which divides no
names, and the first close tag of `family` stands behind it. -/
def Whole (family : Family) (tag : List Char) : Prop :=
  ∃ heading rest, tag = '[' :: family.sigil :: heading ++ ']' :: rest ∧ ']' ∉ heading ∧
    (∀ separator ∈ family.separator?, separator ∉ heading) ∧
    ¬ family.closeTag <:+: '[' :: family.sigil :: heading ++ [']'] ∧ family.closeTag <:+: rest

/-- All tags of `text` that `name` starts are whole, close tags aside. -/
def AllWhole (family : Family) (name : String) (text : List Char) : Prop :=
  ∀ tag, tag <:+ text → family.openPrefix name.toList <+: tag → ¬ family.closeTag <+: tag →
    Whole family tag

namespace Whole

/-- Behind the `heading` of a whole tag there is the `literal`, and then the first close tag. -/
theorem splitFirst_closeTag {heading rest : List Char} (hheading : ']' ∉ heading)
    (hinside : ¬ family.closeTag <:+: '[' :: family.sigil :: heading ++ [']'])
    (hrest : family.closeTag <:+: rest) :
    ∃ literal after,
      Text.splitFirst family.closeTag ('[' :: family.sigil :: heading ++ ']' :: rest) =
        some ('[' :: family.sigil :: heading ++ ']' :: literal, after) := by
  have hoccurs : family.closeTag <:+: '[' :: family.sigil :: heading ++ ']' :: rest :=
    hrest.trans (((List.suffix_cons _ _).trans (List.suffix_append _ _)).isInfix)
  obtain ⟨⟨inner, after⟩, hsplit⟩ :=
    Option.isSome_iff_exists.1 (Text.splitFirst_isSome_iff.2 hoccurs)
  have htag := Text.eq_append_of_splitFirst hsplit
  have hfront : ']' ∉ '[' :: family.sigil :: heading := by
    simp [family.sigil_ne_bracket.2, hheading]
  by_cases hmem : ']' ∈ inner
  · -- the first `]` is the one behind the heading
    obtain ⟨front, literal, rfl, hnot⟩ := List.eq_append_cons_of_mem hmem
    rw [List.append_assoc, List.append_assoc, List.cons_append] at htag
    obtain ⟨rfl, -⟩ := Text.append_cons_inj hfront hnot htag
    exact ⟨literal, after, hsplit⟩
  · -- the first `]` would be that of the close tag, which would then be part of the heading
    have hnot : ']' ∉ inner ++ ['[', family.sigil, 'e', 'n', 'd'] := by
      simp [hmem, family.sigil_ne_bracket.2]
    have hends : '[' :: family.sigil :: heading ++ ']' :: rest =
        (inner ++ ['[', family.sigil, 'e', 'n', 'd']) ++ ']' :: after := by
      rw [htag, Family.closeTag]
      simp
    obtain ⟨hheads, -⟩ := Text.append_cons_inj hfront hnot hends
    exact absurd ⟨inner, [], by rw [hheads, Family.closeTag]; simp⟩ hinside

/-- A tag that is `Whole` makes a site, with the same `rest`. -/
theorem exists_site {text before rest : List Char}
    (hopen : Site.splitOpen (family.openPrefix name.toList) family.closeTag text =
      some (before, rest)) (h : Whole family ('[' :: rest)) :
    ∃ site, Site.locate family name text = .ok (some site) ∧ site.rest = rest ∧
      ∀ separator ∈ family.separator?, separator ∉ site.heading := by
  obtain ⟨heading, behind, htag, hheading, hplain, hinside, hrest⟩ := h
  obtain ⟨literal, after, hclose⟩ := splitFirst_closeTag hheading hinside hrest
  rw [← htag] at hclose
  have hfront : ']' ∉ '[' :: family.sigil :: heading := by
    simp [family.sigil_ne_bracket.2, hheading]
  refine ⟨⟨before, rest, heading, literal, after⟩, ?_, rfl, hplain⟩
  simp only [Site.locate, hopen, hclose, Text.splitFirst_singleton hfront]
  rfl

end Whole

namespace Search

variable {search : Search} {earlier : List Region} {pool : AliasPool} {text : List Char}

/-- The heading of a whole tag is not bound, if it does not read as `search.name`. -/
theorem boundNames_of_whole {site : Site}
    (hsite : Site.locate search.family search.name text = .ok (some site))
    (hwhole : AllWhole search.family search.name text)
    (hother : ∀ heading, ']' ∉ heading →
      '[' :: search.family.sigil :: heading ++ [']'] <:+: text →
        Text.trim heading ≠ search.name.toList) :
    search.boundNames site.heading = .ok none := by
  obtain ⟨-, -, hopen, -⟩ := Site.parts_of_locate hsite
  obtain ⟨htext, hopens, hnot, hrest, hheading, -⟩ := Site.sound_of_locate hsite
  obtain ⟨found, hfound, -, hplain⟩ :=
    Whole.exists_site hopen (hwhole _ ⟨site.before, htext.symm⟩ hopens hnot)
  rw [hsite, Except.ok.injEq, Option.some.injEq] at hfound
  subst hfound
  -- a whole tag has no separator in its heading, so it is not a list
  have hseparator : search.family.separator?.filter site.heading.contains = none := by
    rw [Option.filter_eq_none_iff]
    intro separator hseparator
    simpa using hplain separator hseparator
  -- and the heading is not the name alone, which `text` does not mention
  have hreads : Text.trim site.heading ≠ search.name.toList := by
    refine hother _ hheading ⟨site.before, site.literal ++ search.family.closeTag ++ site.after, ?_⟩
    rw [htext, hrest]
    simp
  rw [boundNames, hseparator]
  exact if_neg hreads

/-- A scan passes over whole tags that do not read as `search.name`. -/
theorem scan_of_whole (hwhole : AllWhole search.family search.name text)
    (hother : ∀ heading, ']' ∉ heading →
      '[' :: search.family.sigil :: heading ++ [']'] <:+: text →
        Text.trim heading ≠ search.name.toList) :
    search.scan earlier pool text = .ok ⟨text, [], pool⟩ := by
  induction hlength : text.length using Nat.strong_induction_on generalizing text with
  | _ length ih =>
    cases hlocate : Site.locate search.family search.name text with
    | error error =>
      -- a site is found at the first tag, which is whole
      exfalso
      cases hopen : Site.splitOpen (search.family.openPrefix search.name.toList)
          search.family.closeTag text with
      | none => simp [Site.locate, hopen] at hlocate
      | some parts =>
        obtain ⟨htext, hopens, hnot⟩ := Site.eq_of_splitOpen hopen
        obtain ⟨site, hsite, -⟩ :=
          Whole.exists_site hopen (hwhole _ ⟨parts.1, htext.symm⟩ hopens hnot)
        rw [hlocate] at hsite
        cases hsite
    | ok found =>
      cases found with
      | none => exact scan_of_none search earlier pool hlocate
      | some site =>
        -- the heading is not bound, and the scan goes on behind the bracket
        have htext := (Site.eq_of_locate hlocate).1
        have hrest : site.rest <:+ text := ⟨site.before ++ ['['], by rw [htext]; simp⟩
        have hscan : search.scan earlier pool site.rest = .ok ⟨site.rest, [], pool⟩ :=
          ih site.rest.length (hlength ▸ Site.rest_length_lt_of_locate hlocate)
            (fun tag htag => hwhole tag (htag.trans hrest))
            (fun heading hheading hin => hother heading hheading (hin.trans hrest.isInfix)) rfl
        rw [scan_of_site search earlier pool hlocate, boundNames_of_whole hlocate hwhole hother]
        simp [hscan, Except.map, Scanned.behind, htext]

/-! ### More registered names -/

/-- What `heading` binds does not change when `more` names are registered. -/
theorem boundNames_of_subset {more : List String} {heading : List Char}
    {bound : Option (List String)} (hmore : search.registered ⊆ more)
    (h : search.boundNames heading = .ok bound) :
    ({ search with registered := more }).boundNames heading = .ok bound := by
  unfold boundNames at h ⊢
  split at h
  · rename_i separator hseparator
    simp only [hseparator] at h ⊢
    split at h
    · cases h
    · rename_i hknown
      -- the listed names are registered, and they are so among more names
      have hall : (listedNames separator heading).find? (fun name => !more.contains name) =
          none := by
        rw [List.find?_eq_none] at hknown ⊢
        intro listed hlisted
        have hregistered : listed ∈ search.registered := by simpa using hknown listed hlisted
        simpa using hmore hregistered
      rw [hall]
      exact h
  · rename_i hseparator
    simp only [hseparator] at h ⊢
    exact h

/-- A scan that succeeds gives the same `scanned` when `more` names are registered. -/
theorem scan_of_subset (search : Search) {earlier : List Region} {pool : AliasPool}
    {text : List Char} {more : List String} {scanned : Scanned} (hmore : search.registered ⊆ more)
    (h : search.scan earlier pool text = .ok scanned) :
    ({ search with registered := more }).scan earlier pool text = .ok scanned := by
  fun_induction Search.scan search earlier pool text generalizing scanned with
  | case1 => cases h
  | case2 earlier pool text hsite =>
    cases h
    exact scan_of_none { search with registered := more } earlier pool hsite
  | case3 => cases h
  | case4 earlier pool text site hsite hbound _ ih =>
    obtain ⟨found, hfound, rfl⟩ := Except.exists_of_map_eq_ok h
    rw [scan_of_site { search with registered := more } earlier pool hsite,
      boundNames_of_subset hmore hbound]
    simp [ih hfound, Except.map]
  | case5 => cases h
  | case6 => cases h
  | case7 earlier pool text site hsite names hbound hclash aliasName next hfresh =>
    rename_i ih
    obtain ⟨found, hfound, rfl⟩ := Except.exists_of_map_eq_ok h
    rw [scan_of_site { search with registered := more } earlier pool hsite,
      boundNames_of_subset hmore hbound]
    -- a clash does not depend on the names that are registered
    have hclash' : ({ search with registered := more } : Search).clash? names earlier = none :=
      hclash
    have hscan := ih hfound
    simp only [hclash', hfresh] at hscan ⊢
    rw [hscan]
    rfl

end Search

namespace Template

variable {registered more first second names : List String} {avoid : List Char}
  {start middle found : Scanned}

/-- Scans for the names of `first` and then for those of `second`. -/
theorem scanNames_append :
    scanNames family registered avoid (first ++ second) start =
      (scanNames family registered avoid first start).bind
        (scanNames family registered avoid second) := by
  induction first generalizing start with
  | nil => rfl
  | cons name first ih =>
    rw [List.cons_append, scanNames, scanNames]
    cases Search.scan ⟨family, name, registered, avoid⟩ start.regions start.pool start.text with
    | error error => rfl
    | ok scanned => exact ih

/-- Scans that succeed give the same `found` when `more` names are registered. -/
theorem scanNames_of_subset (hmore : registered ⊆ more)
    (h : scanNames family registered avoid names start = .ok found) :
    scanNames family more avoid names start = .ok found := by
  induction names generalizing start with
  | nil => exact h
  | cons name names ih =>
    rw [scanNames] at h ⊢
    split at h
    · cases h
    · rename_i scanned hscanned
      have hscan : (⟨family, name, more, avoid⟩ : Search).scan start.regions start.pool start.text =
          .ok scanned := Search.scan_of_subset ⟨family, name, registered, avoid⟩ hmore hscanned
      simp only [hscan]
      exact ih h

end Template

/-! ### One more name -/

/-- If `pattern` occurs in `text'`, which has aliases of `splices` in it, then it occurs in `text`,
unless it contains an alias or overlaps the edge of one. -/
theorem infix_of_spliced {text text' pattern : List Char} {splices : List Splice}
    (hspliced : Spliced text splices text') (hne : pattern ≠ [])
    (hends : ∀ splice ∈ splices, ¬ splice.aliasName.toList <:+: pattern ∧
      pattern.head hne ∉ splice.aliasName.toList ∧ pattern.getLast hne ∉ splice.aliasName.toList)
    (h : pattern <:+: text') : pattern <:+: text := by
  induction hspliced with
  | nil => exact h
  | @cons splice splices _ _ ih =>
    obtain ⟨⟨hinside, hhead, hlast⟩, hrest⟩ := List.forall_mem_cons.1 hends
    obtain ⟨before, after, hresult⟩ := ih hrest h
    rw [Splice.result] at hresult
    -- the pattern cannot reach into the alias, so it lies on one side of it
    rcases Text.append_eq_append_around hne hinside hhead hlast hresult.symm with
      ⟨middle, hbefore, -⟩ | ⟨middle, hafter, -⟩
    · exact ⟨before, middle ++ splice.tail, by rw [Splice.source, hbefore]; simp⟩
    · exact ⟨splice.before ++ splice.body ++ splice.family.closeTag ++ middle, after,
        by rw [Splice.source, Splice.tail, hafter]; simp⟩

/-- The names with one more of a kind, behind the first `place` ones of this kind. -/
def TransformNames.insertAt (names : TransformNames) (kind : TransformKind) (place : Nat)
    (name : String) : TransformNames :=
  match kind with
  | .iterative =>
    { names with iterative := names.iterative.take place ++ name :: names.iterative.drop place }
  | .persistent =>
    { names with persistent := names.persistent.take place ++ name :: names.persistent.drop place }

namespace Template

/-- The family and the outset of the pass that looks for the names of a kind. -/
def outset? (source : String) (names : TransformNames) (pool : AliasPool) :
    TransformKind → Option (Family × Scanned)
  | .iterative =>
    (Mode.detect source.toList).toOption.bind fun mode =>
      mode.family?.map fun family => (family, ⟨source.toList, [], pool⟩)
  | .persistent =>
    (Mode.detect source.toList).toOption.bind fun mode =>
      (scanFamily mode.family? names.iterative source.toList pool source.toList).toOption.map
        fun varying => (.persistent, ⟨varying.text, [], varying.pool⟩)

/-- The family and the text of the scan for a name that is looked for behind the first `place`
names of its kind. -/
def turn? (source : String) (names : TransformNames) (pool : AliasPool) (kind : TransformKind)
    (place : Nat) : Option (Family × List Char) :=
  (outset? source names pool kind).bind fun (family, start) =>
    (scanNames family (names.of family) source.toList ((names.of family).take place)
      start).toOption.map fun found => (family, found.text)

/-- If the scan for `name`, at its turn behind those of `first`, passes over its text, it makes no
difference to the scans of `second`, and neither does `name` among the registered names. -/
theorem scanNames_insert (hmore : registered ⊆ more)
    (hscan : ∀ middle, scanNames family registered avoid first start = .ok middle →
      (⟨family, name, more, avoid⟩ : Search).scan middle.regions middle.pool middle.text =
        .ok ⟨middle.text, [], middle.pool⟩)
    (h : scanNames family registered avoid (first ++ second) start = .ok found) :
    scanNames family more avoid (first ++ name :: second) start = .ok found := by
  rw [scanNames_append] at h ⊢
  cases hfirst : scanNames family registered avoid first start with
  | error error =>
    rw [hfirst] at h
    cases h
  | ok middle =>
    rw [hfirst] at h
    rw [scanNames_of_subset hmore hfirst]
    -- the inserted name takes nothing out at its turn
    have hpassed := hscan middle hfirst
    change scanNames family more avoid (name :: second) middle = .ok found
    rw [scanNames]
    simp only [hpassed, List.append_nil]
    exact scanNames_of_subset hmore h

/-- What `start.pool` has issued stays issued. -/
theorem issued_subset_of_scanNames (hnames : ∀ listed ∈ names, listed ∈ registered)
    (h : scanNames family registered avoid names start = .ok found) :
    start.pool.issued ⊆ found.pool.issued := by
  obtain ⟨splices, hpasses⟩ := passes_of_scanNames hnames h
  rw [(hpasses.traced hnames).draws.issued]
  exact List.subset_append_right _ _

/-- The scans for the names of `first` splice the text, with `splices` whose aliases are drawn, and
what they issue stays issued in `found.pool`. -/
theorem spliced_of_scanNames_append (hnames : ∀ listed ∈ first ++ second, listed ∈ registered)
    (hfirst : scanNames family registered avoid first start = .ok middle)
    (h : scanNames family registered avoid (first ++ second) start = .ok found) :
    ∃ splices, Spliced start.text splices middle.text ∧
      AliasPool.Draws avoid start.pool (splices.map Splice.aliasName) middle.pool ∧
      middle.pool.issued ⊆ found.pool.issued := by
  rw [List.forall_mem_append] at hnames
  obtain ⟨splices, hpasses⟩ := passes_of_scanNames hnames.1 hfirst
  have htraced := hpasses.traced hnames.1
  rw [scanNames_append, hfirst] at h
  exact ⟨splices, htraced.spliced, htraced.draws, issued_subset_of_scanNames hnames.2 h⟩

/-- A `heading` that reads as `name` comes from `source`, unless an alias is part of `name`. -/
theorem mentions_of_spliced {source text heading : List Char} {splices : List Splice}
    (hspliced : Spliced source splices text)
    (haliases : ∀ splice ∈ splices, Wordy splice.aliasName ∧
      ¬ splice.aliasName.toList <:+: name.toList)
    (hheading : ']' ∉ heading) (hin : '[' :: family.sigil :: heading ++ [']'] <:+: text)
    (hreads : Text.trim heading = name.toList) : Mentions name source := by
  refine ⟨family, family.mem_all, heading, mem_headings_of_infix hheading ?_, .inl hreads⟩
  refine infix_of_spliced hspliced (List.cons_ne_nil _ _) (fun splice hsplice => ?_) hin
  obtain ⟨hwordy, hapart⟩ := haliases splice hsplice
  refine ⟨fun hinside => hapart ?_, fun hmem => absurd (hwordy.1 _ hmem) (by simp; decide), ?_⟩
  · rw [← hreads]
    exact Text.infix_trim (List.ne_nil_of_length_pos (Nat.lt_of_le_of_lt (Nat.zero_le 6) hwordy.2))
      (fun c hc => AliasPool.isBlank_of_mem_letters (hwordy.1 c hc)) (hwordy.infix_heading hinside)
  · rw [List.getLast_append_of_ne_nil _ (by simp)]
    exact fun hmem => absurd (hwordy.1 _ hmem) (by simp; decide)

/-- The scan for `name` at its turn passes over the whole tags of `middle.text`, if `source` does
not mention the name. -/
theorem scan_of_not_mentions {source : String} {middle : Scanned} {splices : List Splice}
    (hunnamed : ¬ Mentions name source.toList)
    (hspliced : Spliced source.toList splices middle.text)
    (haliases : ∀ splice ∈ splices, Wordy splice.aliasName ∧
      ¬ splice.aliasName.toList <:+: name.toList)
    (hwhole : AllWhole family name middle.text) :
    (⟨family, name, more, avoid⟩ : Search).scan middle.regions middle.pool middle.text =
      .ok ⟨middle.text, [], middle.pool⟩ :=
  Search.scan_of_whole hwhole fun _ hheading hin hreads =>
    hunnamed (mentions_of_spliced hspliced haliases hheading hin hreads)

/-- The template that is read is what the passes `varying` and `lasting` come to. -/
theorem parse_of_passes {source : String} {names : TransformNames} {pool : AliasPool}
    {template : Template} {varying lasting : Scanned}
    (hmode : Mode.detect source.toList = .ok template.mode)
    (hfirst : scanFamily template.mode.family? names.iterative source.toList pool source.toList =
      .ok varying)
    (hsecond : scanFamily (some .persistent) names.persistent source.toList varying.pool
      varying.text = .ok lasting)
    (htext : template.text = String.ofList lasting.text)
    (hoperations : template.operations = varying.regions.flatMap Region.operations)
    (hpersistent : template.persistent = lasting.regions.map Region.persistentOperation) :
    parse source names pool = .ok (template, lasting.pool) := by
  rw [parse, hmode]
  simp only [hfirst, hsecond, ← htext, ← hoperations, ← hpersistent]

/-- One more `name` at `place` makes no difference to a pass, if the scan for it, at its turn,
passes over its text. -/
theorem scanFamily_insert {family? : Option Family} {place : Nat} {text : List Char}
    {pool : AliasPool}
    (hscan : ∀ family, family? = some family → ∀ middle,
      scanNames family names avoid (names.take place) ⟨text, [], pool⟩ = .ok middle →
        (⟨family, name, names.take place ++ name :: names.drop place, avoid⟩ : Search).scan
          middle.regions middle.pool middle.text = .ok ⟨middle.text, [], middle.pool⟩)
    (h : scanFamily family? names avoid pool text = .ok found) :
    scanFamily family? (names.take place ++ name :: names.drop place) avoid pool text =
      .ok found := by
  cases family? with
  | none => exact h
  | some family =>
    have hsubset : names ⊆ names.take place ++ name :: names.drop place := by
      intro listed hlisted
      rw [← List.take_append_drop place names, List.mem_append] at hlisted
      simpa using hlisted.imp_right Or.inr
    rw [scanFamily] at h ⊢
    refine scanNames_insert hsubset (hscan family rfl) ?_
    rwa [List.take_append_drop]

/-- The aliases of `splices` are `Wordy` and not part of `name`, if no alias that `pool'` has issued
since `pool` is part of it. -/
theorem apart_of_draws {pool next pool' : AliasPool} {splices : List Splice}
    (haliases : ∀ aliasName ∈ pool'.issued, aliasName ∉ pool.issued →
      ¬ aliasName.toList <:+: name.toList)
    (hdraws : AliasPool.Draws avoid pool (splices.map Splice.aliasName) next)
    (hissued : next.issued ⊆ pool'.issued) :
    ∀ splice ∈ splices, Wordy splice.aliasName ∧ ¬ splice.aliasName.toList <:+: name.toList := by
  intro splice hsplice
  have hmem := List.mem_map_of_mem (f := Splice.aliasName) hsplice
  refine ⟨hdraws.wordy hmem, haliases _ (hissued ?_) (hdraws.nodup_append_issued.2 _ hmem)⟩
  rw [hdraws.issued, List.mem_append, List.mem_reverse]
  exact .inl hmem

/-- One more `name` of `kind`, listed at `place`, makes no difference to a template that is read
without it, if `source` does not mention it (`Mentions`), no alias is part of it, and its scan, at
the time of its turn, comes to whole tags only (`AllWhole`): then `template` is the same, with the
same operations in the same order and even the same aliases. -/
theorem parse_insertAt {source : String} {names : TransformNames} {pool pool' : AliasPool}
    {template : Template} {kind : TransformKind} {place : Nat}
    (hunnamed : ¬ Mentions name source.toList)
    (haliases : ∀ aliasName ∈ pool'.issued, aliasName ∉ pool.issued →
      ¬ aliasName.toList <:+: name.toList)
    (hwhole : ∀ family text, turn? source names pool kind place = some (family, text) →
      AllWhole family name text)
    (h : parse source names pool = .ok (template, pool')) :
    parse source (names.insertAt kind place name) pool = .ok (template, pool') := by
  obtain ⟨first, second, hmode, hfirst, hsecond, htext, hoperations, hpersistent, rfl⟩ :=
    exists_of_parse h
  have hlasting : scanNames .persistent names.persistent source.toList
      (names.persistent.take place ++ names.persistent.drop place)
      ⟨first.text, [], first.pool⟩ = .ok second := by
    rw [List.take_append_drop]
    exact hsecond
  have hknown : ∀ listed ∈ names.persistent.take place ++ names.persistent.drop place,
      listed ∈ names.persistent := by
    rw [List.take_append_drop]
    exact fun _ => id
  cases kind with
  | iterative =>
    refine parse_of_passes hmode (scanFamily_insert ?_ hfirst) hsecond htext hoperations hpersistent
    intro family hfamily middle hmiddle
    rw [hfamily] at hfirst
    have hvarying : scanNames family names.iterative source.toList
        (names.iterative.take place ++ names.iterative.drop place)
        ⟨source.toList, [], pool⟩ = .ok first := by
      rw [List.take_append_drop]
      exact hfirst
    obtain ⟨splices, hspliced, hdraws, hissued⟩ := spliced_of_scanNames_append
      (by rw [List.take_append_drop]; exact fun _ => id) hmiddle hvarying
    -- the aliases of the first scans stay issued in both passes
    have hsecondPass : first.pool.issued ⊆ second.pool.issued := by
      have hsubset := issued_subset_of_scanNames hknown hlasting
      exact hsubset
    have hissued' : middle.pool.issued ⊆ second.pool.issued :=
      List.Subset.trans hissued hsecondPass
    have hturn : turn? source names pool .iterative place = some (family, middle.text) := by
      have hof := names.of_iterative (Mode.family?_mem_iterative hfamily)
      simp only [turn?, outset?, hmode, hfamily, Except.toOption, Option.bind_some,
        Option.map_some, hof, hmiddle]
    exact scan_of_not_mentions hunnamed hspliced (apart_of_draws haliases hdraws hissued')
      (hwhole _ _ hturn)
  | persistent =>
    refine parse_of_passes hmode hfirst (scanFamily_insert ?_ hsecond) htext hoperations hpersistent
    rintro family ⟨⟩ middle hmiddle
    obtain ⟨varying, hspliced, -, hdraws, -⟩ := traced_of_scanFamily hfirst
    obtain ⟨splices, hspliced', hdraws', hissued⟩ :=
      spliced_of_scanNames_append hknown hmiddle hlasting
    have hall : AliasPool.Draws source.toList pool ((varying ++ splices).map Splice.aliasName)
        middle.pool := by
      rw [List.map_append]
      exact AliasPool.Draws.append_iff.2 ⟨first.pool, hdraws, hdraws'⟩
    have hturn : turn? source names pool .persistent place = some (.persistent, middle.text) := by
      simp only [turn?, outset?, hmode, hfirst, Except.toOption, Option.bind_some,
        Option.map_some, TransformNames.of, hmiddle]
    exact scan_of_not_mentions hunnamed (hspliced.append hspliced')
      (apart_of_draws haliases hall hissued) (hwhole _ _ hturn)

/-- Names that a source does not mention make a difference. With `a` the list of `ab` and `b` is
read before the region of `aa`; with `h` the running text at the end would have to be closed. -/
theorem parse_insertAt_differs :
    (¬ Mentions "a" "[+aa]1[+end][+ab;b]2[+end]".toList ∧
      (∃ template pool', parse "[+aa]1[+end][+ab;b]2[+end]" ⟨["aa", "ab", "b"], []⟩
          Document.nestedPool = .ok (template, pool') ∧
        template.operations.map Operation.transform = ["aa", "ab", "b"]) ∧
      ∃ template pool', parse "[+aa]1[+end][+ab;b]2[+end]" ⟨["a", "aa", "ab", "b"], []⟩
          Document.nestedPool = .ok (template, pool') ∧
        template.operations.map Operation.transform = ["ab", "b", "aa"]) ∧
    ¬ Mentions "h" "[+x]a[+end] [+h2] b".toList ∧
    (∃ template pool', parse "[+x]a[+end] [+h2] b" ⟨["x"], []⟩ Document.nestedPool =
      .ok (template, pool')) ∧
    parse "[+x]a[+end] [+h2] b" ⟨["h", "x"], []⟩ Document.nestedPool =
      .error (.missingEndTag "[+h" "[+end]") := by
  have hwithout : (parse "[+aa]1[+end][+ab;b]2[+end]" ⟨["aa", "ab", "b"], []⟩
      Document.nestedPool).toOption.map (fun read => read.1.operations.map Operation.transform) =
        some ["aa", "ab", "b"] := by
    decide +kernel
  have hwith : (parse "[+aa]1[+end][+ab;b]2[+end]" ⟨["a", "aa", "ab", "b"], []⟩
      Document.nestedPool).toOption.map (fun read => read.1.operations.map Operation.transform) =
        some ["ab", "b", "aa"] := by
    decide +kernel
  have hclosed : (parse "[+x]a[+end] [+h2] b" ⟨["x"], []⟩ Document.nestedPool).toOption.map
      (fun read => read.1.text) = some "aaaaaaaaaaaaaaaaaaaaaaaaaaaaaaaa [+h2] b" := by
    decide +kernel
  obtain ⟨⟨template, pool'⟩, hparse, horder⟩ := Except.exists_of_toOption_map hwithout
  obtain ⟨⟨template', pool''⟩, hparse', horder'⟩ := Except.exists_of_toOption_map hwith
  obtain ⟨⟨other, rest⟩, hother, -⟩ := Except.exists_of_toOption_map hclosed
  -- templates cannot be compared, so the error is taken out of the outcome
  have hopen : (match parse "[+x]a[+end] [+h2] b" ⟨["h", "x"], []⟩ Document.nestedPool with
      | .error error => some error
      | .ok _ => none) = some (.missingEndTag "[+h" "[+end]") := by
    decide +kernel
  refine ⟨⟨by decide +kernel, ⟨template, pool', hparse, horder⟩, template', pool'', hparse',
    horder'⟩, by decide +kernel, ⟨other, rest, hother⟩, ?_⟩
  split at hopen
  · rename_i error herror
    rw [herror, Option.some.inj hopen]
  · cases hopen

/-- The scan for `h` comes to the tags of `h2`, which is registered, and of `h3`, which is not, and
passes over both. -/
theorem parse_insertAt_longer_names :
    ∃ template pool', parse "[+h2]a[+end] [+h3]b[+end]" ⟨["h", "h2"], []⟩ Document.nestedPool =
        .ok (template, pool') ∧
      template.text = "aaaaaaaaaaaaaaaaaaaaaaaaaaaaaaaa [+h3]b[+end]" := by
  have hread : (parse "[+h2]a[+end] [+h3]b[+end]" ⟨["h2"], []⟩ Document.nestedPool).toOption.map
      (fun read => (read.1.text, read.2.issued)) =
        some ("aaaaaaaaaaaaaaaaaaaaaaaaaaaaaaaa [+h3]b[+end]",
          ["aaaaaaaaaaaaaaaaaaaaaaaaaaaaaaaa"]) := by
    decide +kernel
  obtain ⟨⟨template, pool'⟩, hparse, hread⟩ := Except.exists_of_toOption_map hread
  simp only [Prod.mk.injEq] at hread
  obtain ⟨htext, hissued⟩ := hread
  have haliases : ∀ aliasName ∈ pool'.issued, aliasName ∉ Document.nestedPool.issued →
      ¬ aliasName.toList <:+: "h".toList := by
    rw [hissued]
    decide
  have hturn : turn? "[+h2]a[+end] [+h3]b[+end]" ⟨["h2"], []⟩ Document.nestedPool .iterative 0 =
      some (.single, "[+h2]a[+end] [+h3]b[+end]".toList) := by
    decide +kernel
  -- the name `h` starts two tags, and both are whole
  have htags : ∀ tag ∈ "[+h2]a[+end] [+h3]b[+end]".toList.tails,
      Family.single.openPrefix "h".toList <+: tag →
        tag = "[+h2]a[+end] [+h3]b[+end]".toList ∨ tag = "[+h3]b[+end]".toList := by
    decide +kernel
  have hwhole : AllWhole .single "h" "[+h2]a[+end] [+h3]b[+end]".toList := by
    intro tag htag hopens _
    rcases htags tag ((List.mem_tails _ _).2 htag) hopens with rfl | rfl
    · exact ⟨"h2".toList, "a[+end] [+h3]b[+end]".toList, by decide +kernel, by decide +kernel,
        by rintro _ ⟨⟩; decide +kernel, by decide +kernel, by decide +kernel⟩
    · exact ⟨"h3".toList, "b[+end]".toList, by decide +kernel, by decide +kernel,
        by rintro _ ⟨⟩; decide +kernel, by decide +kernel, by decide +kernel⟩
  have hinsert := parse_insertAt (by decide +kernel) haliases (fun family text hfound => by
    rw [hturn, Option.some.injEq, Prod.mk.injEq] at hfound
    rw [← hfound.1, ← hfound.2]
    exact hwhole) hparse
  exact ⟨template, pool', hinsert, htext⟩

end Template

end Stencil
