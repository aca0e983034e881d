import Stencil.Proofs.Markup.Leftover

/-!
# Open tags without a close tag

An open tag is unclosed when no close tag of its family stands behind it. Regions of the family
that are taken out end before such a tag, so it is still there when the turn of its name comes, and
then the scan fails. Only the pass for iterative regions can take an unclosed tag away, and only a
persistent one: the tag may lie inside an iterative region, whose text is not read as markup.

Main definitions:

* `Family.openTag`: the open tag for a name alone.
* `Unclosed`: a text with an open tag behind which no close tag stands.

Main statements:

* `Course.closed`, `Passes.closed`: a scan that succeeds has a close tag behind every open tag.
* `suffix_of_spliced`: what regions of a family leave of a place behind which none of them ends.
* `Unclosed.inside_or_left`: what regions of another family leave of an unclosed tag, or take out.
* `Passes.not_openTag_infix`: a scan that succeeds leaves no open tag for one of its names alone.
* `parse_unclosed`: a source with an unclosed tag is refused, unless the tag is no markup there.
-/

namespace Stencil

variable {family : Family} {registered : List String} {name : String}

namespace Family

/-- The open tag for `name` alone. -/
def openTag (family : Family) (name : String) : List Char :=
  family.openPrefix name.toList ++ [']']

theorem openTag_eq (family : Family) (name : String) :
    family.openTag name = '[' :: family.sigil :: name.toList ++ [']'] := rfl

theorem sigil_notMem_letters (family : Family) : family.sigil ∉ AliasPool.letters := by
  cases family <;> decide

theorem sigil_inj {family other : Family} (h : family.sigil = other.sigil) : family = other := by
  revert h
  cases family <;> cases other <;> decide

theorem bracket_prefix_closeTag (family : Family) : ['['] <+: family.closeTag :=
  ⟨[family.sigil, 'e', 'n', 'd', ']'], rfl⟩

/-- A close tag has no other `[` than its first one. -/
theorem bracket_notMem_closeTag_tail (family : Family) :
    '[' ∉ [family.sigil, 'e', 'n', 'd', ']'] := by
  cases family <;> decide

/-- A `place` that starts at a bracket, and behind which no tag of `family` closes any more, lies
behind every close tag. -/
theorem suffix_of_closeTag {place start after : List Char} (hplace : ['['] <+: place)
    (hclose : ¬ family.closeTag <:+: place) (h : place <:+ start ++ family.closeTag ++ after) :
    place <:+ after := by
  rw [List.append_assoc] at h
  rcases Text.suffix_append_cases h with hrest | ⟨front, -, -, rfl⟩
  · rcases Text.suffix_cons_append_cases family.bracket_notMem_closeTag_tail hplace hrest with
      rfl | hafter
    · exact absurd (List.prefix_append family.closeTag after).isInfix hclose
    · exact hafter
  · exact absurd ⟨front, after, List.append_assoc _ _ _⟩ hclose

/-- An open tag has no other `[` than its first one. -/
theorem bracket_notMem_openTag_tail (family : Family) (hname : Transforms.nameFlaw? name = none) :
    '[' ∉ family.sigil :: name.toList ++ [']'] := by
  have hplain : '[' ∉ name.toList := notMem_of_isReserved hname (by decide)
  simp [family.sigil_ne_bracket.1, hplain]

/-- An open tag makes no close tag with `rest`, the text behind it. -/
theorem closeTag_infix_of_openTag (hname : Transforms.nameFlaw? name = none) {rest : List Char}
    (h : family.closeTag <:+: family.openTag name ++ rest) : family.closeTag <:+: rest := by
  obtain ⟨start, after, htext⟩ := h
  have hplace : family.closeTag ++ after <:+ family.openTag name ++ rest :=
    ⟨start, by rw [← htext, List.append_assoc]⟩
  rcases Text.suffix_cons_append_cases (family.bracket_notMem_openTag_tail hname)
    (family.bracket_prefix_closeTag.trans (List.prefix_append _ _)) hplace with heq | hrest
  · -- the open tag would read `end`
    have hclose : family.closeTag <+: '[' :: family.sigil :: name.toList ++ ']' :: rest :=
      ⟨after, by rw [heq]; simp⟩
    rw [closeTag_prefix_iff (notMem_of_isReserved hname (by decide))] at hclose
    exact absurd (String.toList_inj.1 hclose) (Transforms.nameFlaw?_eq_none_iff.1 hname).2.1
  · exact (List.prefix_append _ _).isInfix.trans hrest.isInfix

/-- The open tag of `family` does not start the tag of an `other` one. -/
theorem not_openTag_prefix {other : Family} (h : other ≠ family) (rest : List Char) :
    ¬ family.openTag name <+: '[' :: other.sigil :: rest := by
  rintro ⟨after, htext⟩
  simp only [openTag_eq, List.cons_append, List.cons.injEq, true_and] at htext
  exact h (sigil_inj htext.1.symm)

/-- An open tag that starts in `front`, before a bracket, ends there as well. -/
theorem openTag_prefix_of_bracket (hname : Transforms.nameFlaw? name = none)
    {front rest : List Char} (hne : front ≠ [])
    (h : family.openTag name <+: front ++ '[' :: rest) : family.openTag name <+: front := by
  obtain ⟨c, front, rfl⟩ := List.exists_cons_of_ne_nil hne
  obtain ⟨hc, htail⟩ := List.cons_prefix_cons.1 h
  have hplain := family.bracket_notMem_openTag_tail hname
  exact List.cons_prefix_cons.2 ⟨hc, (Text.prefix_append_cons_iff hplain).1 htail⟩

end Family

/-- Somewhere in `text` stands the open tag for `name`, and behind it no close tag of `family`. -/
def Unclosed (family : Family) (name : String) (text : List Char) : Prop :=
  ∃ before after, text = before ++ family.openTag name ++ after ∧ ¬ family.closeTag <:+: after

/-- An unclosed tag, seen as the `place` from which on `text` is read. -/
theorem unclosed_iff_exists_suffix (hname : Transforms.nameFlaw? name = none) {text : List Char} :
    Unclosed family name text ↔
      ∃ place, place <:+ text ∧ family.openTag name <+: place ∧ ¬ family.closeTag <:+: place := by
  constructor
  · rintro ⟨before, after, rfl, hclose⟩
    exact ⟨_, ⟨before, (List.append_assoc _ _ _).symm⟩, List.prefix_append _ _,
      mt (Family.closeTag_infix_of_openTag hname) hclose⟩
  · rintro ⟨_, ⟨before, rfl⟩, ⟨after, rfl⟩, hclose⟩
    exact ⟨before, after, (List.append_assoc _ _ _).symm,
      fun h => hclose (h.trans (List.suffix_append _ _).isInfix)⟩

/-! ### Scans that succeed -/

namespace Search

variable {search : Search} {pool : AliasPool} {text place : List Char} {splices : List Splice}
  {scanned : Scanned}

/-- In the text from `site` on there is a close tag. -/
theorem closeTag_infix_of_locate {site : Site}
    (h : Site.locate search.family search.name text = .ok (some site)) :
    search.family.closeTag <:+: '[' :: site.rest := by
  obtain ⟨-, -, -, hrest, -⟩ := Site.sound_of_locate h
  rw [hrest, List.append_assoc]
  exact (List.prefix_append _ _).isInfix.trans (List.suffix_append _ _).isInfix

/-- A `place` where the open tag for `search.name` stands is, unless it is a close tag, at the first
`site` that a scan comes to or behind its bracket; without a close tag behind it, it is behind. -/
theorem suffix_rest_of_locate {site : Site}
    (h : Site.locate search.family search.name text = .ok (some site)) (hplace : place <:+ text)
    (hopen : search.family.openPrefix search.name.toList <+: place)
    (hclose : ¬ search.family.closeTag <:+: place) : place <:+ site.rest := by
  rw [(Site.eq_of_locate h).1] at hplace
  rcases Text.suffix_append_cases hplace with hplace | ⟨front, hne, hfront, rfl⟩
  · rcases List.suffix_cons_iff.1 hplace with rfl | hplace
    · exact absurd (closeTag_infix_of_locate h) hclose
    · exact hplace
  · exact absurd ⟨hopen, fun hprefix => hclose hprefix.isInfix⟩
      (Site.not_open_of_locate h hfront hne)

/-- A scan that succeeds has a close tag behind every `place` where the open tag for its name
stands. -/
theorem Course.closed (h : search.Course pool text splices scanned) (hplace : place <:+ text)
    (hopen : search.family.openPrefix search.name.toList <+: place) :
    search.family.closeTag <:+: place := by
  by_contra hclose
  -- the place lies behind everything that the scan comes to, so it is left in the end
  induction h with
  | stop hsite =>
    exact Site.not_open_of_locate_none hsite hplace ⟨hopen, fun h => hclose h.isInfix⟩
  | pass hsite _ _ ih => exact ih (suffix_rest_of_locate hsite hplace hopen hclose)
  | @bind pool next text site aliasName splices scanned hsite _ _ _ ih =>
    have hrest : place <:+ '[' :: site.rest :=
      (suffix_rest_of_locate hsite hplace hopen hclose).trans (List.suffix_cons _ _)
    rw [(Site.sound_of_locate hsite).2.2.2.1] at hrest
    have hbracket : ['['] <+: place := (List.prefix_append ['['] _).trans hopen
    exact ih (Family.suffix_of_closeTag hbracket hclose hrest)

end Search

/-- A `place` behind which no region of `family` ends is left as it is when regions of the family
are taken out. -/
theorem suffix_of_spliced {text text' place : List Char} {splices : List Splice}
    (h : Spliced text splices text') (hfamily : ∀ splice ∈ splices, splice.family = family)
    (hplace : place <:+ text) (hbracket : ['['] <+: place)
    (hclose : ¬ family.closeTag <:+: place) : place <:+ text' := by
  induction h with
  | nil => exact hplace
  | @cons splice splices _ _ ih =>
    obtain ⟨hfirst, hrest⟩ := List.forall_mem_cons.1 hfamily
    have hsource : splice.source =
        splice.before ++ splice.body ++ family.closeTag ++ splice.after := by
      rw [Splice.source, Splice.tail, hfirst]
      simp
    rw [hsource] at hplace
    -- what has no close tag in it lies behind the one of the region
    have hafter : place <:+ splice.after := Family.suffix_of_closeTag hbracket hclose hplace
    refine ih hrest (hafter.trans ?_)
    rw [Splice.result]
    exact List.suffix_append _ _

/-! ### Regions of another family -/

/-- A `word` without blanks and separators that stands in the heading of `splice` stands in one of
its names. -/
theorem Splice.exists_name_of_infix {splice : Splice} {word : List Char} (hne : word ≠ [])
    (hword : ∀ c ∈ word, Text.isBlank c = false) (hjoint : splice.family.joint ∉ word)
    (h : word <:+: splice.heading) : ∃ listed ∈ splice.names, word <:+: listed.toList := by
  unfold names
  split
  · rename_i separator hseparator
    have hfamily := (Option.filter_eq_some_iff.1 hseparator).1
    rw [Family.separator?_eq_joint (by simp [hfamily]), Option.some.injEq] at hfamily
    exact Search.exists_listed_of_infix hne hword (hfamily ▸ hjoint) h
  · refine ⟨_, List.mem_singleton_self _, ?_⟩
    rw [String.toList_ofList]
    exact Text.infix_trim hne hword h

namespace Splice.Sound

variable {splice : Splice}

/-- The heading of a sound `splice` has no bracket, because the names in it have none. -/
theorem bracket_notMem_heading (h : splice.Sound registered)
    (hvalid : ∀ name ∈ registered, Transforms.nameFlaw? name = none) : '[' ∉ splice.heading := by
  intro hmem
  obtain ⟨start, rest, hheading⟩ := List.append_of_mem hmem
  obtain ⟨listed, hlisted, hin⟩ := splice.exists_name_of_infix (List.cons_ne_nil '[' [])
    (List.forall_mem_singleton.2 (by decide))
    (by simpa using splice.family.ne_joint_of_bracket.1.symm) ⟨start, rest, by simp [hheading]⟩
  have hname := hvalid listed (h.names listed hlisted)
  exact notMem_of_isReserved hname (by decide) (hin.subset List.mem_cons_self)

/-- A sound `splice` has a name: the one that opens it leaves something to be read. -/
theorem names_ne_nil (h : splice.Sound registered)
    (hvalid : ∀ name ∈ registered, Transforms.nameFlaw? name = none) : splice.names ≠ [] := by
  have hname := hvalid _ h.name
  have hflaw := Transforms.nameFlaw?_eq_none_iff.1 hname
  -- the name starts the heading
  have hopens : splice.name.toList <+: splice.heading := by
    have htail : splice.tail = '[' :: splice.family.sigil :: (splice.heading ++
        ']' :: (splice.literal ++ splice.family.closeTag ++ splice.after)) := by
      simp [Splice.tail, Splice.body]
    have hprefix := h.opens
    rw [htail, Family.openPrefix, List.cons_prefix_cons, List.cons_prefix_cons] at hprefix
    exact (Text.prefix_append_cons_iff (notMem_of_isReserved hname (by decide))).1 hprefix.2.2
  have hplain : ∀ c ∈ splice.name.toList, Text.isBlank c = false := by
    intro c hc
    have hreserved := hflaw.2.2 c hc
    simp only [Transforms.isReserved, Bool.or_eq_false_iff] at hreserved
    exact hreserved.1.1.1.1
  -- it has no separator in it, so it lies in one of the listed names
  obtain ⟨listed, hlisted, -⟩ := splice.exists_name_of_infix (by simpa using hflaw.1) hplain
    (notMem_of_isReserved hname splice.family.isReserved_joint) hopens.isInfix
  exact List.ne_nil_of_mem hlisted

end Splice.Sound

/-- The alias is a word of letters that is too long for a close tag. -/
def Wordy (aliasName : String) : Prop :=
  (∀ c ∈ aliasName.toList, c ∈ AliasPool.letters) ∧ 6 < aliasName.toList.length

/-- An alias in a tag is in its `heading`. -/
theorem Wordy.infix_heading {aliasName : String} (h : Wordy aliasName) {heading : List Char}
    (hin : aliasName.toList <:+: '[' :: family.sigil :: heading ++ [']']) :
    aliasName.toList <:+: heading := by
  have hother : ∀ c, c ∉ AliasPool.letters → c ∉ aliasName.toList :=
    fun c hc hmem => hc (h.1 c hmem)
  have htag : aliasName.toList <:+: '[' :: family.sigil :: heading :=
    Text.infix_of_infix_concat (hother _ (by decide)) hin
  exact Text.infix_of_infix_cons (hother _ family.sigil_notMem_letters)
    (Text.infix_of_infix_cons (hother _ (by decide)) htag)

/-- Each of the `aliases` that are drawn is `Wordy`. -/
theorem AliasPool.Draws.wordy {avoid : List Char} {pool pool' : AliasPool} {aliases : List String}
    (h : Draws avoid pool aliases pool') {aliasName : String} (halias : aliasName ∈ aliases) :
    Wordy aliasName := by
  constructor
  · intro c hc
    by_contra hletter
    exact h.notMem_of_notMem_letters halias hletter hc
  · rw [h.length_toList halias, aliasLength]
    decide

/-- An alias makes no close tag with `start` and `rest`, the text around it. -/
theorem Wordy.closeTag_infix_cases {aliasName : String} (h : Wordy aliasName)
    {start rest : List Char} (hclose : family.closeTag <:+: start ++ aliasName.toList ++ rest) :
    family.closeTag <:+: start ∨ family.closeTag <:+: rest := by
  obtain ⟨before, after, htext⟩ := hclose
  have hbracket : '[' ∉ aliasName.toList ∧ ']' ∉ aliasName.toList :=
    ⟨fun hmem => absurd (h.1 _ hmem) (by decide), fun hmem => absurd (h.1 _ hmem) (by decide)⟩
  -- an alias is longer than a close tag
  have hinside : ¬ aliasName.toList <:+: family.closeTag := by
    intro hin
    have hlength : aliasName.toList.length ≤ family.closeTag.length := hin.length_le
    have := h.2
    simp only [Family.closeTag, List.length_cons, List.length_nil] at hlength
    omega
  rcases Text.append_eq_append_around (by simp [Family.closeTag]) hinside hbracket.1
    (by simpa [Family.closeTag] using hbracket.2) htext.symm with
    ⟨middle, rfl, -⟩ | ⟨middle, rfl, -⟩
  · exact .inl ⟨before, middle, rfl⟩
  · exact .inr ⟨middle, after, rfl⟩

/-- When `splice` takes out a region of another family, an unclosed tag is left, or it was
inside. -/
theorem Unclosed.inside_or_left_of_splice {splice : Splice}
    (hname : Transforms.nameFlaw? name = none) (hfamily : splice.family ≠ family)
    (hheading : '[' ∉ splice.heading) (halias : Wordy splice.aliasName)
    (h : Unclosed family name splice.source) :
    Unclosed family name splice.result ∨ family.openTag name <:+: splice.literal := by
  obtain ⟨place, hplace, hopen, hclose⟩ := (unclosed_iff_exists_suffix hname).1 h
  have hbracket : ['['] <+: place := (List.prefix_append ['['] _).trans hopen
  rcases Text.suffix_append_cases hplace with hplace | ⟨front, hne, hfront, rfl⟩
  · -- the tag stands in the region or behind it
    have htail : splice.tail = '[' :: (splice.family.sigil :: splice.heading ++ [']']) ++
        (splice.literal ++ (splice.family.closeTag ++ splice.after)) := by
      simp [Splice.tail, Splice.body]
    have hstart : '[' ∉ splice.family.sigil :: splice.heading ++ [']'] := by
      simp [splice.family.sigil_ne_bracket.1, hheading]
    rw [htail] at hplace
    rcases Text.suffix_cons_append_cases hstart hbracket hplace with rfl | hplace
    · exact absurd hopen (Family.not_openTag_prefix hfamily _)
    rcases Text.suffix_append_cases hplace with hplace | ⟨front, hne, hfront, rfl⟩
    · rcases Text.suffix_cons_append_cases splice.family.bracket_notMem_closeTag_tail hbracket
        hplace with rfl | hplace
      · exact absurd hopen (Family.not_openTag_prefix hfamily _)
      · exact .inl ((unclosed_iff_exists_suffix hname).2
          ⟨place, hplace.trans (List.suffix_append _ _), hopen, hclose⟩)
    · have htag := Family.openTag_prefix_of_bracket hname hne hopen
      exact .inr (htag.isInfix.trans hfront.isInfix)
  · -- the tag stands before the region
    refine .inl ((unclosed_iff_exists_suffix hname).2
      ⟨front ++ splice.aliasName.toList ++ splice.after, ?_, ?_, ?_⟩)
    · obtain ⟨start, hbefore⟩ := hfront
      exact ⟨start, by rw [Splice.result, ← hbefore]; simp⟩
    · rw [List.append_assoc]
      exact (Family.openTag_prefix_of_bracket hname hne hopen).trans (List.prefix_append _ _)
    · intro hinfix
      rcases halias.closeTag_infix_cases hinfix with hin | hin
      · exact hclose (hin.trans (List.prefix_append _ _).isInfix)
      · refine hclose (hin.trans (List.IsSuffix.isInfix ?_))
        exact ((List.suffix_append _ _).trans (List.suffix_append _ _))

/-- When `splices` take out regions of another family, an unclosed tag is left, or it lies in one of
them. -/
theorem Unclosed.inside_or_left {text text' : List Char} {splices : List Splice}
    (hspliced : Spliced text splices text') (hname : Transforms.nameFlaw? name = none)
    (hsplices : ∀ splice ∈ splices, splice.family ≠ family ∧ '[' ∉ splice.heading ∧
      Wordy splice.aliasName) (h : Unclosed family name text) :
    Unclosed family name text' ∨
      ∃ splice ∈ splices, family.openTag name <:+: splice.literal := by
  induction hspliced with
  | nil => exact .inl h
  | @cons splice splices _ _ ih =>
    obtain ⟨⟨hfamily, hheading, halias⟩, hrest⟩ := List.forall_mem_cons.1 hsplices
    rcases h.inside_or_left_of_splice hname hfamily hheading halias with hleft | hinside
    · rcases ih hrest hleft with hleft | ⟨other, hother, hinside⟩
      · exact .inl hleft
      · exact .inr ⟨other, List.mem_cons_of_mem _ hother, hinside⟩
    · exact .inr ⟨splice, List.mem_cons_self, hinside⟩

/-- A settled `text` has no open tag for `name` alone. -/
theorem Settled.not_openTag_infix {text : List Char}
    (h : Settled family [name] name text) (hflaw : Transforms.nameFlaw? name = none) :
    ¬ family.openTag name <:+: text := by
  rintro ⟨before, after, rfl⟩
  have hbracket : ']' ∉ name.toList := notMem_of_isReserved hflaw (by decide)
  have htag : family.openTag name ++ after =
      '[' :: family.sigil :: name.toList ++ ']' :: after := by
    simp [Family.openTag_eq]
  refine h (family.openTag name ++ after) ⟨before, by rw [List.append_assoc]⟩ ?_
  rw [htag, bindable_iff hbracket hbracket]
  refine ⟨List.prefix_rfl, fun hend => ?_, .inl (trim_name hflaw)⟩
  exact (Transforms.nameFlaw?_eq_none_iff.1 hflaw).2.1 (String.toList_inj.1 hend)

namespace Mode

/-- A `mode` that is detected is that of the iterative `family` whose close tag occurs in
`source`. -/
theorem family?_of_closeTag {source : List Char} {mode : Mode} (h : detect source = .ok mode)
    (hiterative : family ∈ Family.iterative) (hclose : family.closeTag <:+: source) :
    mode.family? = some family := by
  have hmem : family ∈ familiesIn source := by
    rw [familiesIn, List.mem_filter, Text.occurs_iff]
    exact ⟨hiterative, hclose⟩
  unfold detect at h
  split at h
  · rename_i hnone
    rw [hnone] at hmem
    exact absurd hmem List.not_mem_nil
  · rename_i only honly
    rw [honly, List.mem_singleton] at hmem
    cases h
    rw [← hmem, family?_ofFamily hiterative]
  · cases h

/-- The `family` of a mode is an iterative one. -/
theorem family?_mem_iterative {mode : Mode} (h : mode.family? = some family) :
    family ∈ Family.iterative := by
  cases mode <;> cases h <;> decide

end Mode

namespace Template

/-- Scans for `names` that succeed have a close tag behind every `place` where the open tag for one
of them stands. -/
theorem Passes.closed {names : List String} {avoid place : List Char} {start found : Scanned}
    {splices : List Splice} (hnames : ∀ name ∈ names, name ∈ registered)
    (h : Passes family registered avoid names start splices found) (hname : name ∈ names)
    (hplace : place <:+ start.text) (hopen : family.openPrefix name.toList <+: place) :
    family.closeTag <:+: place := by
  by_contra hclose
  induction h with
  | nil => cases hname
  | @cons first names start middle found splices more head tail ih =>
    obtain ⟨hfirst, hrest⟩ := List.forall_mem_cons.1 hnames
    rcases List.mem_cons.1 hname with rfl | hname
    · exact hclose (head.closed hplace hopen)
    · -- the scan before has left the place as it was
      have hscan := head.traced hfirst
      have hbracket : ['['] <+: place := (List.prefix_append ['['] _).trans hopen
      exact ih hrest hname (suffix_of_spliced hscan.spliced
        (fun splice hsplice => (hscan.sound splice hsplice).1) hplace hbracket hclose)

/-- Scans for `names` that succeed start from a text that has no unclosed tag for one of them. -/
theorem Passes.not_unclosed {names : List String} {avoid : List Char} {start found : Scanned}
    {splices : List Splice} (hnames : ∀ name ∈ names, name ∈ registered)
    (h : Passes family registered avoid names start splices found)
    (hflaw : Transforms.nameFlaw? name = none) (hname : name ∈ names) :
    ¬ Unclosed family name start.text := by
  intro hunclosed
  obtain ⟨place, hplace, hopen, hclose⟩ := (unclosed_iff_exists_suffix hflaw).1 hunclosed
  exact hclose (h.closed hnames hname hplace ((List.prefix_append _ _).trans hopen))

/-- Scans for `names` that succeed leave no open tag for one `name` of them alone, if the aliases
avoid a text with the name. -/
theorem Passes.not_openTag_infix {names : List String} {avoid : List Char}
    {start found : Scanned} {splices : List Splice} (hnames : ∀ name ∈ names, name ∈ registered)
    (h : Passes family registered avoid names start splices found)
    (hflaw : Transforms.nameFlaw? name = none) (hname : name ∈ names)
    (havoid : name.toList <:+: avoid) : ¬ family.openTag name <:+: found.text := by
  have hdraws := (h.traced hnames).draws
  -- an alias is drawn so that it occurs nowhere in the source
  have hneutral : ∀ splice ∈ splices, Neutral [name] splice.aliasName := by
    intro splice hsplice
    have hmem := List.mem_map_of_mem (f := Splice.aliasName) hsplice
    refine ⟨(hdraws.wordy hmem).1, List.forall_mem_singleton.2 fun hin => ?_⟩
    have hnot := hdraws.not_occurs hmem
    rw [← Bool.not_eq_true, Text.occurs_iff] at hnot
    exact hnot (hin.trans havoid)
  have hbracket : ']' ∉ name.toList := notMem_of_isReserved hflaw (by decide)
  have hsettled : Settled family [name] name found.text :=
    h.settled hnames hneutral (List.mem_singleton_self name) hbracket hname
  exact hsettled.not_openTag_infix hflaw

/-- The pass for iterative regions leaves an unclosed persistent tag, or an operation shows it. -/
theorem operation_or_left_of_scanFamily {family? : Option Family} {names : List String}
    {avoid text : List Char} {pool : AliasPool} {found : Scanned}
    (hscan : scanFamily family? names avoid pool text = .ok found)
    (hiterative : ∀ other, family? = some other → other ∈ Family.iterative)
    (hvalid : ∀ listed ∈ names, Transforms.nameFlaw? listed = none)
    (hflaw : Transforms.nameFlaw? name = none) (h : Unclosed .persistent name text) :
    Unclosed .persistent name found.text ∨
      ∃ op ∈ found.regions.flatMap Region.operations,
        Family.persistent.openTag name <:+: op.literal.toList := by
  obtain ⟨splices, hspliced, hregions, hdraws, hsound⟩ := traced_of_scanFamily hscan
  have hsplices : ∀ splice ∈ splices, splice.family ≠ .persistent ∧
      '[' ∉ splice.heading ∧ Wordy splice.aliasName := by
    intro splice hsplice
    obtain ⟨hfamily, hsplice'⟩ := hsound splice hsplice
    refine ⟨fun hpersistent => ?_, hsplice'.bracket_notMem_heading hvalid,
      hdraws.wordy (List.mem_map_of_mem hsplice)⟩
    exact absurd (hiterative _ (hpersistent ▸ hfamily)) (by decide)
  refine (h.inside_or_left hspliced hflaw hsplices).imp_right ?_
  rintro ⟨splice, hsplice, hinside⟩
  -- each name of the region has an operation with the text of the region
  obtain ⟨listed, more, hlisted⟩ :=
    List.exists_cons_of_ne_nil ((hsound splice hsplice).2.names_ne_nil hvalid)
  refine ⟨⟨listed, splice.aliasName, String.ofList splice.literal, none⟩, ?_, ?_⟩
  · rw [hregions, List.flatMap_map]
    refine List.mem_flatMap.2 ⟨splice, hsplice, ?_⟩
    simp [Region.operations, Splice.region, hlisted]
  · rwa [String.toList_ofList]

/-- A source with an unclosed tag for `name` is refused, unless the tag is not read as markup. Here
to be refused means that `parse` gives an error, which is not `.noFreshAlias` if as many aliases as
`source` has brackets can be drawn. For an iterative `family` this needs a close tag of `family`
somewhere in `source`; without one the mode is another one, and the tags of `family` are running
text. A persistent tag is only ever accepted inside an iterative region, whose text is not read as
markup: it is part of the `literal` of an operation, and not of the text of `template`. -/
theorem parse_unclosed {source : String} (names : TransformNames) (pool : AliasPool)
    (hvalid : ∀ name ∈ names.iterative ++ names.persistent, Transforms.nameFlaw? name = none)
    (hname : name ∈ names.of family) (h : Unclosed family name source.toList) :
    let draws := source.toList.count '['
    let refused := ∃ error, parse source names pool = .error error ∧
      ((pool.freshList source.toList draws).length = draws → error ≠ .noFreshAlias)
    (family ∈ Family.iterative → family.closeTag <:+: source.toList → refused) ∧
    (family = .persistent → refused ∨
      ∃ template pool', parse source names pool = .ok (template, pool') ∧
        ¬ family.openTag name <:+: template.text.toList ∧
        ∃ op ∈ template.operations, family.openTag name <:+: op.literal.toList) := by
  intro draws refused
  have hflaw : Transforms.nameFlaw? name = none := by
    refine hvalid name (List.mem_append.2 ?_)
    cases family with
    | persistent => exact .inr hname
    | _ => exact .inl hname
  have hrefused : ∀ error, parse source names pool = .error error → refused := by
    intro error hparse
    refine ⟨error, hparse, fun hdraws hnone => ?_⟩
    rw [hnone] at hparse
    exact length_freshList_ne_of_parse hparse hdraws
  cases hparse : parse source names pool with
  | error error =>
    exact ⟨fun _ _ => hrefused error hparse, fun _ => .inl (hrefused error hparse)⟩
  | ok read =>
    obtain ⟨template, pool'⟩ := read
    obtain ⟨first, second, hmode, hfirst, hsecond, htext, hoperations, -, -⟩ :=
      exists_of_parse hparse
    constructor
    · intro hiterative hclose
      -- the pass for the family would have come to the tag
      rw [names.of_iterative hiterative] at hname
      rw [Mode.family?_of_closeTag hmode hiterative hclose] at hfirst
      obtain ⟨splices, hpasses⟩ := passes_of_scanNames (fun _ => id) hfirst
      exact absurd h (hpasses.not_unclosed (fun _ => id) hflaw hname)
    · rintro rfl
      obtain ⟨lasting, hpasses⟩ := passes_of_scanNames (fun _ => id) hsecond
      refine .inr ⟨template, pool', rfl, ?_, ?_⟩
      · have hinside : name.toList <:+: source.toList := by
          obtain ⟨before, after, hsource, -⟩ := h
          exact ⟨before ++ ['[', Family.persistent.sigil], ']' :: after,
            by simp [hsource, Family.openTag_eq]⟩
        rw [htext, String.toList_ofList]
        exact hpasses.not_openTag_infix (fun _ => id) hflaw hname hinside
      · -- the pass for persistent regions comes to no unclosed tag, so the one before has taken it
        have hnone := hpasses.not_unclosed (fun _ => id) hflaw hname
        rw [hoperations]
        exact (operation_or_left_of_scanFamily hfirst (fun _ => Mode.family?_mem_iterative)
          (fun _ hlisted => hvalid _ (List.mem_append_left _ hlisted)) hflaw h).resolve_left hnone

/-- Unclosed tags that are read. Without a close tag of the family the first one is running text,
which is left in the text; the second one is persistent and lies inside the region of `a`. -/
theorem parse_unclosed_accepted :
    (∃ template pool', parse "[+h]abc" ⟨["h"], []⟩ Document.nestedPool = .ok (template, pool') ∧
      Unclosed .single "h" "[+h]abc".toList ∧ template.text = "[+h]abc") ∧
    ∃ template pool', parse "[+a][@p][+end]" ⟨["a"], ["p"]⟩ Document.nestedPool =
        .ok (template, pool') ∧
      Unclosed .persistent "p" "[+a][@p][+end]".toList ∧
      template.operations.map Operation.literal = ["[@p]"] := by
  have hplain : (parse "[+h]abc" ⟨["h"], []⟩ Document.nestedPool).toOption.map
      (fun read => read.1.text) = some "[+h]abc" := by
    decide +kernel
  have hinside : (parse "[+a][@p][+end]" ⟨["a"], ["p"]⟩ Document.nestedPool).toOption.map
      (fun read => read.1.operations.map Operation.literal) = some ["[@p]"] := by
    decide +kernel
  obtain ⟨⟨template, pool'⟩, hparse, htext⟩ := Except.exists_of_toOption_map hplain
  obtain ⟨⟨template', pool''⟩, hparse', hliteral⟩ := Except.exists_of_toOption_map hinside
  have hopen : Unclosed .single "h" "[+h]abc".toList :=
    ⟨[], "abc".toList, by decide +kernel, by decide +kernel⟩
  have hopen' : Unclosed .persistent "p" "[+a][@p][+end]".toList :=
    ⟨"[+a]".toList, "[+end]".toList, by decide +kernel, by decide +kernel⟩
  exact ⟨⟨template, pool', hparse, hopen, htext⟩, template', pool'', hparse', hopen', hliteral⟩

/-- The second region of `h` is not closed, so there is an error, and not for want of an alias. The
region of `p` is not closed either, but it lies inside the region of `a`, and so its tag goes into
the `literal` of an operation. -/
theorem parse_unclosed_second_region :
    (∃ error, parse "[+h]abc[+end] [+h]def" ⟨["h"], []⟩ Document.nestedPool = .error error ∧
      error ≠ .noFreshAlias) ∧
    ∃ template pool', parse "[+a][@p][+end]" ⟨["a"], ["p"]⟩ Document.nestedPool =
        .ok (template, pool') ∧
      ¬ Family.persistent.openTag "p" <:+: template.text.toList ∧
      ∃ op ∈ template.operations, Family.persistent.openTag "p" <:+: op.literal.toList := by
  have hsecond : Unclosed .single "h" "[+h]abc[+end] [+h]def".toList :=
    ⟨"[+h]abc[+end] ".toList, "def".toList, by decide +kernel, by decide +kernel⟩
  have hinside : Unclosed .persistent "p" "[+a][@p][+end]".toList :=
    ⟨"[+a]".toList, "[+end]".toList, by decide +kernel, by decide +kernel⟩
  have hread : (parse "[+a][@p][+end]" ⟨["a"], ["p"]⟩ Document.nestedPool).toOption.map
      (fun read => read.1.mode) = some .single := by
    decide +kernel
  obtain ⟨⟨template, pool'⟩, hparse, -⟩ := Except.exists_of_toOption_map hread
  constructor
  · obtain ⟨error, herror, hdrawn⟩ := (parse_unclosed ⟨["h"], []⟩ Document.nestedPool
      (by decide +kernel) (by decide +kernel) hsecond).1 (by decide) (by decide +kernel)
    exact ⟨error, herror, hdrawn (by decide +kernel)⟩
  · rcases (parse_unclosed ⟨["a"], ["p"]⟩ Document.nestedPool (by decide +kernel)
      (by decide +kernel) hinside).2 rfl with ⟨error, herror, -⟩ | haccepted
    · rw [hparse] at herror
      cases herror
    · exact haccepted

end Template

end Stencil
