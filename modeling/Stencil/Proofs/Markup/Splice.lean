import Stencil.Proofs.Except
import Stencil.Proofs.Markup.Parse

/-!
# Splices

To read a template is to splice it again and again: a region with its tags is taken out, and an
alias is put in its place. A splice remembers what was taken out and where, so it can be undone, and
the template can be put together again from the text with aliases, whatever the source was.

Main definitions:

* `Splice`, `Spliced`: a splice, and texts that splices lead from and to.
* `Splice.Sound`: which regions are taken out.
* `Search.Course`: the rounds of a scan, with the splices that it makes.
* `Template.Passes`: the same for the scans for several names.
* `Traced`: how the outcome of scans is made up of splices.

Main statements:

* `foldr_undo`: splices are undone from the last one to the first.
* `course_of_scan`: a scan that succeeds runs its course.
* `Course.traced`: the course of a scan is a row of sound splices.
* `length_freshList_ne_of_parse`: if there is no alias for a region, a draw has failed.
* `parse_splices`: a template that is read is spliced, and nothing of its source is lost.
-/

namespace Stencil

/-- A region of a text, and the alias that takes its place. -/
structure Splice where
  /-- The family of the region. -/
  family : Family
  /-- The name that was looked for when the region was found. -/
  name : String
  /-- The text before the region. -/
  before : List Char
  /-- The text between the sigil of the open tag and its `]`. -/
  heading : List Char
  /-- The text inside the region. -/
  literal : List Char
  /-- The alias. -/
  aliasName : String
  /-- The text behind the region. -/
  after : List Char
deriving DecidableEq, Repr

namespace Splice

/-- The region of `splice` without its close tag. -/
def body (splice : Splice) : List Char :=
  '[' :: splice.family.sigil :: splice.heading ++ ']' :: splice.literal

/-- The text from the start of the region of `splice` on. -/
def tail (splice : Splice) : List Char :=
  splice.body ++ splice.family.closeTag ++ splice.after

/-- The text in which the region of `splice` is found. -/
def source (splice : Splice) : List Char :=
  splice.before ++ splice.tail

/-- The text with `splice.aliasName` in the place of the region. -/
def result (splice : Splice) : List Char :=
  splice.before ++ splice.aliasName.toList ++ splice.after

/-- Puts the region of `splice` back, at its place in `text`. -/
def undo (splice : Splice) (text : List Char) : List Char :=
  text.take splice.before.length ++ splice.body ++ splice.family.closeTag ++
    text.drop (splice.before.length + splice.aliasName.toList.length)

/-- The names that the heading binds: the parts between the separators of `family`, trimmed and
without blank ones, if the heading has separators, or else the trimmed heading alone. -/
def names (splice : Splice) : List String :=
  match splice.family.separator?.filter splice.heading.contains with
  | some separator =>
    (((Text.splitOn separator splice.heading).map Text.trim).filter (· ≠ [])).map String.ofList
  | none => [String.ofList (Text.trim splice.heading)]

/-- What is recorded of the region of `splice`. -/
def region (splice : Splice) : Region :=
  ⟨String.ofList splice.heading, splice.names, splice.aliasName, String.ofList splice.literal⟩

/-- The `splice` with `start` before it. -/
def behind (start : List Char) (splice : Splice) : Splice :=
  { splice with before := start ++ splice.before }

/-- The region is one that a scan takes out: it is opened by the name, which is registered, and is
not itself a close tag; it ends with the first close tag; and its heading binds registered names. -/
structure Sound (registered : List String) (splice : Splice) : Prop where
  /-- The name is registered. -/
  name : splice.name ∈ registered
  /-- The name opens the region. -/
  opens : splice.family.openPrefix splice.name.toList <+: splice.tail
  /-- No close tag stands there. -/
  not_close : ¬ splice.family.closeTag <+: splice.tail
  /-- The heading reaches to the first `]`. -/
  heading : ']' ∉ splice.heading
  /-- No close tag starts before the one that ends the region. -/
  first : ∀ start rest, splice.tail = start ++ splice.family.closeTag ++ rest →
    splice.body.length ≤ start.length
  /-- The names that the heading binds are registered. -/
  names : ∀ listed ∈ splice.names, listed ∈ registered

theorem undo_result (splice : Splice) : splice.undo splice.result = splice.source := by
  have htake : splice.result.take splice.before.length = splice.before := by
    rw [result, List.append_assoc, List.take_left']
    rfl
  have hdrop : splice.result.drop (splice.before.length + splice.aliasName.toList.length) =
      splice.after := by
    rw [result, ← List.length_append, List.drop_left']
    rfl
  rw [undo, htake, hdrop, source, tail]
  simp

theorem source_behind (start : List Char) (splice : Splice) :
    (splice.behind start).source = start ++ splice.source := by
  simp [source, behind, tail, body]

theorem result_behind (start : List Char) (splice : Splice) :
    (splice.behind start).result = start ++ splice.result := by
  simp [result, behind]

theorem Sound.behind {registered : List String} {splice : Splice} (h : splice.Sound registered)
    (start : List Char) : (splice.behind start).Sound registered :=
  ⟨h.name, h.opens, h.not_close, h.heading, h.first, h.names⟩

end Splice

/-- The splices lead from the first text to the second one. -/
inductive Spliced : List Char → List Splice → List Char → Prop where
  /-- Without splices the text stays as it is. -/
  | nil (text : List Char) : Spliced text [] text
  /-- The first splice leads to a text from which the others go on. -/
  | cons {splice : Splice} {splices : List Splice} {text : List Char}
      (rest : Spliced splice.result splices text) :
      Spliced splice.source (splice :: splices) text

namespace Spliced

variable {text text' text'' : List Char} {splices more : List Splice}

theorem append (h : Spliced text splices text') (hmore : Spliced text' more text'') :
    Spliced text (splices ++ more) text'' := by
  induction h with
  | nil => exact hmore
  | cons _ ih => exact .cons (ih hmore)

theorem behind (start : List Char) (h : Spliced text splices text') :
    Spliced (start ++ text) (splices.map (Splice.behind start)) (start ++ text') := by
  induction h with
  | nil => exact .nil _
  | @cons splice splices text rest ih =>
    rw [← Splice.source_behind, List.map_cons]
    apply Spliced.cons
    rw [Splice.result_behind]
    exact ih

/-- The `splices` of a text are undone from the last one to the first. -/
theorem foldr_undo (h : Spliced text splices text') : splices.foldr Splice.undo text' = text := by
  induction h with
  | nil => rfl
  | cons _ ih => rw [List.foldr_cons, ih, Splice.undo_result]

end Spliced

/-! ### What is found at a place -/

namespace Site

/-- The searches that lead to a site: for an open tag, for the close tag behind it, and for the
first `]` between the two. -/
theorem parts_of_locate {family : Family} {name : String} {text : List Char} {site : Site}
    (h : locate family name text = .ok (some site)) :
    ∃ inner tag,
      splitOpen (family.openPrefix name.toList) family.closeTag text =
        some (site.before, site.rest) ∧
      Text.splitFirst family.closeTag ('[' :: site.rest) = some (inner, site.after) ∧
      Text.splitFirst [']'] inner = some (tag, site.literal) ∧ site.heading = tag.drop 2 := by
  unfold locate at h
  simp only at h
  split at h
  · cases h
  · rename_i before rest hopen
    split at h
    · cases h
    · rename_i inner after hclose
      split at h
      · cases h
      · rename_i tag literal htag
        cases h
        exact ⟨inner, tag, hopen, hclose, htag, rfl⟩

/-- What a scan finds is an open tag for the name, which is no close tag, with a heading up to the
first `]` and a region up to the first close tag. -/
theorem sound_of_locate {family : Family} {name : String} {text : List Char} {site : Site}
    (h : locate family name text = .ok (some site)) :
    text = site.before ++ '[' :: site.rest ∧
      family.openPrefix name.toList <+: '[' :: site.rest ∧
      ¬ family.closeTag <+: '[' :: site.rest ∧
      '[' :: site.rest = '[' :: family.sigil :: site.heading ++ ']' :: site.literal ++
        family.closeTag ++ site.after ∧
      ']' ∉ site.heading ∧
      ∀ start rest, '[' :: site.rest = start ++ family.closeTag ++ rest →
        ('[' :: family.sigil :: site.heading ++ ']' :: site.literal).length ≤ start.length := by
  obtain ⟨inner, tag, hopen, hclose, htag, htail⟩ := parts_of_locate h
  obtain ⟨htext, hopens, hnot⟩ := eq_of_splitOpen hopen
  have hrest := Text.eq_append_of_splitFirst hclose
  have hinner := Text.eq_append_of_splitFirst htag
  have hbracket := Text.notMem_of_splitFirst htag
  -- the tag starts with the bracket and the sigil, because the region does
  have hhead : tag = '[' :: family.sigil :: site.heading := by
    obtain ⟨more, hmore⟩ := hopens
    rw [hrest, hinner] at hmore
    rw [htail]
    rcases tag with _ | ⟨c, _ | ⟨d, heading⟩⟩
    · simp [Family.openPrefix] at hmore
    · simp only [Family.openPrefix, List.cons_append, List.nil_append, List.cons.injEq] at hmore
      exact absurd hmore.2.1.symm family.sigil_ne_bracket.2
    · simp only [Family.openPrefix, List.cons_append, List.cons.injEq] at hmore
      rw [← hmore.1, ← hmore.2.1]
      rfl
  rw [hhead, List.append_assoc, List.singleton_append] at hinner
  rw [hinner] at hrest
  refine ⟨htext, hopens, hnot, hrest, ?_, ?_⟩
  · intro hmem
    apply hbracket
    rw [hhead]
    exact List.mem_cons_of_mem _ (List.mem_cons_of_mem _ hmem)
  · intro start rest hsplit
    rw [← hinner]
    exact Text.length_le_of_splitFirst hclose hsplit

/-- A search for a site draws no alias. -/
theorem locate_ne_noFreshAlias {family : Family} {name : String} {text : List Char} :
    locate family name text ≠ .error .noFreshAlias := by
  intro h
  unfold locate at h
  simp only at h
  split at h
  · cases h
  · split at h
    · cases h
    · split at h <;> cases h

/-- The splice that puts `aliasName` in the place of `site`. -/
def splice (search : Search) (aliasName : String) (site : Site) : Splice :=
  ⟨search.family, search.name, site.before, site.heading, site.literal, aliasName, site.after⟩

/-- A `site` that binds registered names makes a sound splice of `text`. -/
theorem sound_splice {search : Search} {text : List Char} {site : Site} {aliasName : String}
    (hname : search.name ∈ search.registered)
    (hsite : locate search.family search.name text = .ok (some site))
    (hnames : ∀ listed ∈ (site.splice search aliasName).names, listed ∈ search.registered) :
    text = (site.splice search aliasName).source ∧
      (site.splice search aliasName).Sound search.registered := by
  obtain ⟨htext, hopens, hnot, hrest, hheading, hfirst⟩ := sound_of_locate hsite
  have htail : (site.splice search aliasName).tail = '[' :: site.rest := by
    rw [hrest]
    rfl
  refine ⟨?_, hname, ?_, ?_, hheading, ?_, hnames⟩
  · rw [htext, Splice.source, htail]
    rfl
  · rwa [htail]
  · rwa [htail]
  · rwa [htail]

end Site

/-! ### The course of a scan -/

namespace Search

variable {search : Search} {pool next : AliasPool} {text : List Char} {splices : List Splice}
  {scanned : Scanned}

/-- The `names` that the heading of `splice` binds are `splice.names`, and they are registered. -/
theorem eq_names_of_boundNames {splice : Splice} {names : List String}
    (hname : search.name ∈ search.registered) (hfamily : splice.family = search.family)
    (h : search.boundNames splice.heading = .ok (some names)) :
    names = splice.names ∧ ∀ listed ∈ names, listed ∈ search.registered := by
  unfold boundNames at h
  unfold Splice.names
  rw [hfamily]
  cases hseparator : search.family.separator?.filter splice.heading.contains with
  | some separator =>
    -- the heading is a list of names
    rw [hseparator] at h
    simp only at h ⊢
    split at h
    · cases h
    · rename_i hknown
      cases h
      refine ⟨rfl, ?_⟩
      simpa using hknown
  | none =>
    -- the heading is the name itself
    rw [hseparator] at h
    simp only at h ⊢
    split at h
    · rename_i htrim
      cases h
      refine ⟨?_, by simpa using hname⟩
      rw [htrim, String.ofList_toList]
    · cases h

/-- A heading is read without drawing an alias. -/
theorem boundNames_ne_noFreshAlias {heading : List Char} :
    search.boundNames heading ≠ .error .noFreshAlias := by
  intro h
  unfold boundNames at h
  split at h
  · simp only at h
    split at h <;> cases h
  · split at h <;> cases h

/-- The course of a scan, round by round, and the splices that it makes. -/
inductive Course (search : Search) : AliasPool → List Char → List Splice → Scanned → Prop where
  /-- No open tag is left. -/
  | stop {pool : AliasPool} {text : List Char}
      (hsite : Site.locate search.family search.name text = .ok none) :
      Course search pool text [] ⟨text, [], pool⟩
  /-- An open tag is passed over, and the scan goes on behind its bracket. -/
  | pass {pool : AliasPool} {text : List Char} {site : Site} {splices : List Splice}
      {scanned : Scanned} (hsite : Site.locate search.family search.name text = .ok (some site))
      (hbound : search.boundNames site.heading = .ok none)
      (rest : Course search pool site.rest splices scanned) :
      Course search pool text (splices.map (Splice.behind (site.before ++ ['['])))
        (scanned.behind (site.before ++ ['[']))
  /-- A region is taken out, and the scan goes on behind it. -/
  | bind {pool next : AliasPool} {text : List Char} {site : Site} {aliasName : String}
      {splices : List Splice} {scanned : Scanned}
      (hsite : Site.locate search.family search.name text = .ok (some site))
      (hnames : ∀ listed ∈ (site.splice search aliasName).names, listed ∈ search.registered)
      (hfresh : pool.fresh? search.avoid = some (aliasName, next))
      (rest : Course search next site.after splices scanned) :
      Course search pool text (site.splice search aliasName ::
          splices.map (Splice.behind (site.before ++ aliasName.toList)))
        (scanned.withRegion site.before (site.splice search aliasName).region)

/-- A scan that succeeds with `scanned` runs its course. -/
theorem course_of_scan (hname : search.name ∈ search.registered) {earlier : List Region}
    (h : search.scan earlier pool text = .ok scanned) :
    ∃ splices, search.Course pool text splices scanned := by
  fun_induction Search.scan search earlier pool text generalizing scanned with
  | case1 => cases h
  | case2 earlier pool text hsite =>
    cases h
    exact ⟨[], .stop hsite⟩
  | case3 => cases h
  | case4 earlier pool text site hsite hbound _ ih =>
    obtain ⟨found, hfound, rfl⟩ := Except.exists_of_map_eq_ok h
    obtain ⟨splices, hcourse⟩ := ih hfound
    exact ⟨_, .pass hsite hbound hcourse⟩
  | case5 => cases h
  | case6 => cases h
  | case7 earlier pool text site hsite names hbound _ aliasName next hfresh =>
    -- the region that is recorded is that of the splice, as the names that are bound are its names
    rename_i ih
    obtain ⟨found, hfound, rfl⟩ := Except.exists_of_map_eq_ok h
    obtain ⟨splices, hcourse⟩ := ih hfound
    have hbinds : names = (site.splice search aliasName).names ∧
        ∀ listed ∈ names, listed ∈ search.registered :=
      eq_names_of_boundNames hname rfl hbound
    obtain ⟨rfl, hnames⟩ := hbinds
    exact ⟨_, .bind hsite hnames hfresh hcourse⟩

end Search

/-! ### From a source to its template -/

/-- How the outcome of scans comes about: by sound splices, which are recorded in order, and each of
which draws its alias when its turn comes. -/
structure Traced (family : Family) (registered : List String) (avoid : List Char)
    (start : Scanned) (splices : List Splice) (found : Scanned) : Prop where
  /-- The splices lead to the text. -/
  spliced : Spliced start.text splices found.text
  /-- Their regions are recorded. -/
  regions : found.regions = start.regions ++ splices.map Splice.region
  /-- Their aliases are drawn. -/
  draws : AliasPool.Draws avoid start.pool (splices.map Splice.aliasName) found.pool
  /-- They take out what they should. -/
  sound : ∀ splice ∈ splices, splice.family = family ∧ splice.Sound registered

namespace Traced

variable {family : Family} {registered : List String} {avoid : List Char}
  {start middle found : Scanned} {splices more : List Splice}

theorem nil (start : Scanned) : Traced family registered avoid start [] start where
  spliced := .nil _
  regions := by simp
  draws := .nil _
  sound := by simp

theorem append (h : Traced family registered avoid start splices middle)
    (hmore : Traced family registered avoid middle more found) :
    Traced family registered avoid start (splices ++ more) found where
  spliced := h.spliced.append hmore.spliced
  regions := by rw [hmore.regions, h.regions, List.map_append, List.append_assoc]
  draws := by
    rw [List.map_append]
    exact AliasPool.Draws.append_iff.2 ⟨middle.pool, h.draws, hmore.draws⟩
  sound splice hsplice := (List.mem_append.1 hsplice).elim (h.sound splice) (hmore.sound splice)

/-- With `start` before them, `splices` stay as sound as they are. -/
theorem sound_map_behind (start : List Char)
    (h : ∀ splice ∈ splices, splice.family = family ∧ splice.Sound registered) :
    ∀ splice ∈ splices.map (Splice.behind start),
      splice.family = family ∧ splice.Sound registered := by
  rw [List.forall_mem_map]
  intro splice hsplice
  obtain ⟨hfamily, hsound⟩ := h splice hsplice
  exact ⟨hfamily, hsound.behind start⟩

end Traced

namespace Search

variable {search : Search} {pool : AliasPool} {text : List Char} {splices : List Splice}
  {scanned : Scanned}

/-- The `splices` of a scan make up what it has `scanned`. -/
theorem Course.traced (hname : search.name ∈ search.registered)
    (h : search.Course pool text splices scanned) :
    Traced search.family search.registered search.avoid ⟨text, [], pool⟩ splices scanned := by
  induction h with
  | stop => exact .nil _
  | @pass pool text site splices scanned hsite hbound _ ih =>
    have htext : text = (site.before ++ ['[']) ++ site.rest := by
      rw [(Site.eq_of_locate hsite).1]
      simp
    -- all splices lie behind the bracket that is passed over
    refine ⟨?_, ?_, ?_, Traced.sound_map_behind _ ih.sound⟩
    · rw [htext]
      exact ih.spliced.behind _
    · rw [List.map_map]
      exact ih.regions
    · rw [List.map_map]
      exact ih.draws
  | @bind pool next text site aliasName splices scanned hsite hnames hfresh _ ih =>
    -- the region comes first, and the other splices lie behind its alias
    obtain ⟨htext, hsound⟩ := Site.sound_splice hname hsite hnames
    refine ⟨?_, ?_, ?_, ?_⟩
    · rw [htext]
      exact .cons (ih.spliced.behind _)
    · have hregions : scanned.regions = splices.map Splice.region := ih.regions
      rw [List.map_cons, List.map_map, Scanned.withRegion, hregions]
      rfl
    · rw [List.map_cons, List.map_map]
      exact .cons hfresh ih.draws
    · rw [List.forall_mem_cons]
      exact ⟨⟨rfl, hsound⟩, Traced.sound_map_behind _ ih.sound⟩

end Search

namespace Mode

/-- The mode is detected without drawing an alias. -/
theorem detect_ne_noFreshAlias {source : List Char} : detect source ≠ .error .noFreshAlias := by
  intro h
  unfold detect at h
  split at h <;> cases h

/-- The `family` of a `mode` that was detected is the one iterative family whose close tag occurs in
`source`. -/
theorem eq_family_iff_of_detect {source : List Char} {mode : Mode} {family : Family}
    (h : detect source = .ok mode) (hfamily : mode.family? = some family) (other : Family) :
    other ∈ Family.iterative ∧ other.closeTag <:+: source ↔ other = family := by
  have hmem : other ∈ familiesIn source ↔
      other ∈ Family.iterative ∧ other.closeTag <:+: source := by
    rw [familiesIn, List.mem_filter, Text.occurs_iff]
  rw [← hmem]
  -- there is exactly one such family, or the mode would have none
  unfold detect at h
  split at h
  · cases h
    exact absurd hfamily (by simp [family?])
  · rename_i only honly
    have hiterative : only ∈ Family.iterative :=
      (List.mem_filter.1 (honly ▸ List.mem_singleton_self only : only ∈ familiesIn source)).1
    cases h
    rw [family?_ofFamily hiterative] at hfamily
    cases hfamily
    rw [honly, List.mem_singleton]
  · cases h

end Mode

namespace Template

/-- The courses of the scans for one name after the other, with all the splices that they make. -/
inductive Passes (family : Family) (registered : List String) (avoid : List Char) :
    List String → Scanned → List Splice → Scanned → Prop where
  /-- No name is left. -/
  | nil (start : Scanned) : Passes family registered avoid [] start [] start
  /-- The text is scanned for the first name, and what is left of it for the others. -/
  | cons {name : String} {names : List String} {start first found : Scanned}
      {splices more : List Splice}
      (head : Search.Course ⟨family, name, registered, avoid⟩ start.pool start.text splices first)
      (tail : Passes family registered avoid names
        { first with regions := start.regions ++ first.regions } more found) :
      Passes family registered avoid (name :: names) start (splices ++ more) found

section Passes

variable {family : Family} {registered names : List String} {avoid : List Char}
  {start found : Scanned} {splices : List Splice}

/-- Scans for `names` that succeed run their courses. -/
theorem passes_of_scanNames (hnames : ∀ name ∈ names, name ∈ registered)
    (h : scanNames family registered avoid names start = .ok found) :
    ∃ splices, Passes family registered avoid names start splices found := by
  induction names generalizing start with
  | nil =>
    cases h
    exact ⟨[], .nil _⟩
  | cons name names ih =>
    obtain ⟨hname, hrest⟩ := List.forall_mem_cons.1 hnames
    rw [scanNames] at h
    split at h
    · cases h
    · rename_i first hfirst
      obtain ⟨splices, hcourse⟩ := Search.course_of_scan hname hfirst
      obtain ⟨more, hmore⟩ := ih hrest h
      exact ⟨splices ++ more, .cons hcourse hmore⟩

/-- The `splices` of all the scans make up what they have `found`. -/
theorem Passes.traced (hnames : ∀ name ∈ names, name ∈ registered)
    (h : Passes family registered avoid names start splices found) :
    Traced family registered avoid start splices found := by
  induction h with
  | nil start => exact .nil start
  | @cons name names start first found splices more head _ ih =>
    obtain ⟨hname, hrest⟩ := List.forall_mem_cons.1 hnames
    have hscan := head.traced hname
    -- the scan knows nothing of the regions that were found before it
    have hhead : Traced family registered avoid start splices
        { first with regions := start.regions ++ first.regions } :=
      ⟨hscan.spliced, congrArg (start.regions ++ ·) hscan.regions, hscan.draws, hscan.sound⟩
    exact hhead.append (ih hrest)

end Passes

/-- What the pass for a family has `found` is made up of splices of this family. -/
theorem traced_of_scanFamily {family? : Option Family} {names : List String}
    {avoid text : List Char} {pool : AliasPool} {found : Scanned}
    (h : scanFamily family? names avoid pool text = .ok found) :
    ∃ splices, Spliced text splices found.text ∧
      found.regions = splices.map Splice.region ∧
      AliasPool.Draws avoid pool (splices.map Splice.aliasName) found.pool ∧
      ∀ splice ∈ splices, family? = some splice.family ∧ splice.Sound names := by
  cases family? with
  | none =>
    cases h
    exact ⟨[], .nil _, rfl, .nil _, by simp⟩
  | some family =>
    obtain ⟨splices, hpasses⟩ := passes_of_scanNames (fun _ => id) h
    have htraced := hpasses.traced fun _ => id
    refine ⟨splices, htraced.spliced, htraced.regions, htraced.draws, fun splice hsplice => ?_⟩
    obtain ⟨rfl, hsound⟩ := htraced.sound splice hsplice
    exact ⟨rfl, hsound⟩

/-- The two passes, `varying` and `lasting`, of which the reading of a `template` is made up. -/
theorem exists_of_parse {source : String} {names : TransformNames} {pool pool' : AliasPool}
    {template : Template} (h : parse source names pool = .ok (template, pool')) :
    ∃ varying lasting : Scanned,
      Mode.detect source.toList = .ok template.mode ∧
      scanFamily template.mode.family? names.iterative source.toList pool source.toList =
        .ok varying ∧
      scanFamily (some .persistent) names.persistent source.toList varying.pool varying.text =
        .ok lasting ∧
      template.text = String.ofList lasting.text ∧
      template.operations = varying.regions.flatMap Region.operations ∧
      template.persistent = lasting.regions.map Region.persistentOperation ∧
      pool' = lasting.pool := by
  unfold parse at h
  split at h
  · cases h
  · rename_i mode hmode
    split at h
    · cases h
    · rename_i varying hvarying
      split at h
      · cases h
      · rename_i lasting hlasting
        cases h
        exact ⟨varying, lasting, hmode, hvarying, hlasting, rfl, rfl, rfl, rfl⟩

/-! ### Draws that fail -/

/-- Each of `splices` takes at least one bracket out of `text`. -/
theorem count_bracket_of_spliced {text text' : List Char} {splices : List Splice}
    (h : Spliced text splices text')
    (haliases : ∀ splice ∈ splices, '[' ∉ splice.aliasName.toList) :
    splices.length + text'.count '[' ≤ text.count '[' := by
  induction h with
  | nil => simp
  | @cons splice splices _ _ ih =>
    obtain ⟨halias, hrest⟩ := List.forall_mem_cons.1 haliases
    have hresult : splice.result.count '[' = splice.before.count '[' + splice.after.count '[' := by
      rw [Splice.result, List.count_append, List.count_append, List.count_eq_zero.2 halias,
        Nat.add_zero]
    -- the splice takes out one open bracket at least and puts none in
    have hsource : splice.source = splice.before ++ '[' :: (splice.family.sigil :: splice.heading ++
        ']' :: splice.literal ++ splice.family.closeTag ++ splice.after) := by
      simp [Splice.source, Splice.tail, Splice.body]
    have hlater := ih hrest
    rw [hsource, List.count_append, List.count_cons_self, List.count_append, List.length_cons]
    omega

/-- If a scan has no alias for a region, a draw from `pool` has failed, and each alias that was
drawn before has taken a bracket of `text`. -/
theorem failsWithin_of_scan {search : Search} {earlier : List Region} {pool : AliasPool}
    {text : List Char} (h : search.scan earlier pool text = .error .noFreshAlias) :
    pool.FailsWithin search.avoid (text.count '[') := by
  fun_induction Search.scan search earlier pool text with
  | case1 earlier pool text error hsite =>
    cases h
    exact absurd hsite Site.locate_ne_noFreshAlias
  | case2 => cases h
  | case3 earlier pool text site hsite error hbound =>
    cases h
    exact absurd hbound Search.boundNames_ne_noFreshAlias
  | case4 earlier pool text site hsite hbound _ ih =>
    -- the tag is passed over, so the draw that fails comes later in the text
    refine (ih (Except.eq_error_of_map_eq_error h)).mono ?_
    rw [(Site.eq_of_locate hsite).1]
    simp
    omega
  | case5 => cases h
  | case6 earlier pool text site hsite names hbound hclash hfresh =>
    -- the draw for this region fails
    refine ⟨[], pool, .nil pool, hfresh, List.count_pos_iff.2 ?_⟩
    rw [(Site.eq_of_locate hsite).1]
    simp
  | case7 earlier pool text site hsite names hbound hclash aliasName next hfresh _ _ ih =>
    -- an alias is drawn for this region, and the rest has fewer brackets
    refine (ih (Except.eq_error_of_map_eq_error h)).after (.cons hfresh (.nil next)) ?_
    obtain ⟨htext, tag, hrest, -⟩ := Site.eq_of_locate hsite
    have hclose : 0 < search.family.closeTag.count '[' :=
      List.count_pos_iff.2 List.mem_cons_self
    rw [htext, hrest, List.count_append, List.count_append, List.count_append,
      List.length_singleton]
    omega

section

variable {family : Family} {registered names : List String} {avoid : List Char}

theorem failsWithin_of_scanNames {start : Scanned} (hnames : ∀ name ∈ names, name ∈ registered)
    (h : scanNames family registered avoid names start = .error .noFreshAlias) :
    start.pool.FailsWithin avoid (start.text.count '[') := by
  induction names generalizing start with
  | nil => cases h
  | cons name names ih =>
    obtain ⟨hname, hrest⟩ := List.forall_mem_cons.1 hnames
    rw [scanNames] at h
    split at h
    · rename_i error hscan
      cases h
      exact failsWithin_of_scan hscan
    · rename_i first hfirst
      -- the splices of the first scan have taken their brackets
      obtain ⟨splices, hcourse⟩ := Search.course_of_scan hname hfirst
      have htraced := hcourse.traced hname
      refine (ih hrest h).after htraced.draws ?_
      rw [List.length_map]
      exact count_bracket_of_spliced htraced.spliced fun splice hsplice =>
        htraced.draws.notMem_of_notMem_letters (List.mem_map_of_mem hsplice) (by decide)

theorem failsWithin_of_scanFamily {family? : Option Family} {text : List Char} {pool : AliasPool}
    (h : scanFamily family? names avoid pool text = .error .noFreshAlias) :
    pool.FailsWithin avoid (text.count '[') := by
  cases family? with
  | none => cases h
  | some family => exact failsWithin_of_scanNames (fun _ => id) h

end

/-- If `source` is not read for want of an alias, as many aliases as it has brackets cannot be
drawn. -/
theorem length_freshList_ne_of_parse {source : String} {names : TransformNames} {pool : AliasPool}
    (h : parse source names pool = .error .noFreshAlias) :
    (pool.freshList source.toList (source.toList.count '[')).length ≠ source.toList.count '[' := by
  unfold parse at h
  split at h
  · rename_i error hmode
    cases h
    exact absurd hmode Mode.detect_ne_noFreshAlias
  · split at h
    · rename_i error hfirst
      cases h
      exact (failsWithin_of_scanFamily hfirst).length_freshList_ne
    · rename_i varying hfirst
      split at h
      · rename_i error hsecond
        cases h
        -- the pass for iterative regions has drawn its aliases before
        obtain ⟨splices, hspliced, -, hdraws, -⟩ := traced_of_scanFamily hfirst
        refine ((failsWithin_of_scanFamily hsecond).after hdraws ?_).length_freshList_ne
        rw [List.length_map]
        exact count_bracket_of_spliced hspliced fun splice hsplice =>
          hdraws.notMem_of_notMem_letters (List.mem_map_of_mem hsplice) (by decide)
      · cases h

/-! ### What is recorded -/

/-- A template that is read from `source` comes from it by splices, one for each alias that `pool'`
has issued and in the order in which they are issued. The splices of `varying` take out regions of
the one iterative family whose close tag occurs in `source`, and those of `lasting`, which come
later, persistent regions. Each splice of `varying` is recorded by one operation for each of its
`names`, with its alias, its literal and no value, and each splice of `lasting` by one persistent
operation with the trimmed heading, the `names` as its chain, the alias and the literal. Nothing is
lost: when the splices are undone, the last one first, `source` comes back. -/
theorem parse_splices {source : String} {names : TransformNames} {pool pool' : AliasPool}
    {template : Template} (h : parse source names pool = .ok (template, pool')) :
    ∃ varying lasting : List Splice,
      Spliced source.toList (varying ++ lasting) template.text.toList ∧
      AliasPool.Draws source.toList pool ((varying ++ lasting).map Splice.aliasName) pool' ∧
      pool'.issued = ((varying ++ lasting).map Splice.aliasName).reverse ++ pool.issued ∧
      (∀ splice ∈ varying, template.mode.family? = some splice.family ∧
        (∀ family, family ∈ Family.iterative ∧ family.closeTag <:+: source.toList ↔
          family = splice.family) ∧
        splice.Sound names.iterative) ∧
      (∀ splice ∈ lasting, splice.family = .persistent ∧ splice.Sound names.persistent) ∧
      template.operations = varying.flatMap (fun splice => splice.names.map fun name =>
        { transform := name
          aliasName := splice.aliasName
          literal := String.ofList splice.literal
          cached := none }) ∧
      template.persistent = lasting.map (fun splice =>
        { binding := String.ofList (Text.trim splice.heading)
          chain := splice.names
          aliasName := splice.aliasName
          literal := String.ofList splice.literal }) ∧
      (varying ++ lasting).foldr Splice.undo template.text.toList = source.toList := by
  obtain ⟨first, second, hmode, hfirst, hsecond, htext, hoperations, hpersistent, rfl⟩ :=
    exists_of_parse h
  obtain ⟨varying, hspliced, hregions, hdraws, hvarying⟩ := traced_of_scanFamily hfirst
  obtain ⟨lasting, hspliced', hregions', hdraws', hlasting⟩ := traced_of_scanFamily hsecond
  -- the pass for persistent regions goes on where the one for iterative regions has ended
  have hall : Spliced source.toList (varying ++ lasting) template.text.toList := by
    rw [htext, String.toList_ofList]
    exact hspliced.append hspliced'
  have hissues : AliasPool.Draws source.toList pool ((varying ++ lasting).map Splice.aliasName)
      second.pool := by
    rw [List.map_append]
    exact AliasPool.Draws.append_iff.2 ⟨first.pool, hdraws, hdraws'⟩
  refine ⟨varying, lasting, hall, hissues, hissues.issued, ?_, ?_, ?_, ?_, hall.foldr_undo⟩
  · intro splice hsplice
    obtain ⟨hfamily, hsound⟩ := hvarying splice hsplice
    exact ⟨hfamily, Mode.eq_family_iff_of_detect hmode hfamily, hsound⟩
  · intro splice hsplice
    obtain ⟨hfamily, hsound⟩ := hlasting splice hsplice
    exact ⟨(Option.some.inj hfamily).symm, hsound⟩
  · rw [hoperations, hregions, List.flatMap_map]
    rfl
  · rw [hpersistent, hregions', List.map_map]
    refine List.map_congr_left fun splice _ => ?_
    simp [Region.persistentOperation, Splice.region]

/-- The region of `a` lies in the one of `b` and is taken out before it, so the alias of `inner`
goes into the literal of `outer`, and is there again when `outer` is undone. The persistent region
comes `last`; its heading is recorded as it is written, and its chain without the blanks. -/
theorem parse_splices_inner_region :
    let source := "[+b] [+a]x[+end] y[+end][@p | q]z[@end]"
    ∃ (template : Template) (pool' : AliasPool) (inner outer last : Splice),
      parse source ⟨["a", "b"], ["p", "q"]⟩ Document.nestedPool = .ok (template, pool') ∧
      pool'.issued = [last.aliasName, outer.aliasName, inner.aliasName] ∧
      template.text = outer.aliasName ++ last.aliasName ∧
      template.operations = [inner, outer].flatMap (fun splice => splice.names.map fun name =>
        ⟨name, splice.aliasName, String.ofList splice.literal, none⟩) ∧
      template.operations = [⟨"a", inner.aliasName, "x", none⟩,
        ⟨"b", outer.aliasName, " " ++ inner.aliasName ++ " y", none⟩] ∧
      template.persistent = [⟨String.ofList (Text.trim last.heading), last.names, last.aliasName,
        String.ofList last.literal⟩] ∧
      template.persistent = [⟨"p | q", ["p", "q"], last.aliasName, "z"⟩] ∧
      Spliced source.toList [inner, outer, last] template.text.toList ∧
      inner.undo (outer.undo (last.undo template.text.toList)) = source.toList := by
  intro source
  let name := fun letter => String.ofList (List.replicate 32 letter)
  have hread : (parse source ⟨["a", "b"], ["p", "q"]⟩ Document.nestedPool).toOption.map
      (fun read => (read.1, read.2.issued)) =
        some (⟨.single, name 'd' ++ name 'g', [⟨"a", name 'a', "x", none⟩,
          ⟨"b", name 'd', " " ++ name 'a' ++ " y", none⟩], [⟨"p | q", ["p", "q"], name 'g', "z"⟩]⟩,
          [name 'g', name 'd', name 'a']) := by
    decide +kernel
  obtain ⟨⟨template, pool'⟩, hparse, hread⟩ := Except.exists_of_toOption_map hread
  obtain ⟨htemplate, hissued⟩ := Prod.mk.inj hread
  obtain ⟨varying, lasting, hspliced, -, hissues, -, -, hoperations, hpersistent, hundo⟩ :=
    parse_splices hparse
  -- one persistent operation is recorded, and three aliases are issued
  obtain ⟨last, rfl⟩ : ∃ last, lasting = [last] := by
    have hlength := congrArg (fun template => template.persistent.length) htemplate
    rw [hpersistent, List.length_map] at hlength
    exact List.length_eq_one_iff.1 hlength
  rw [hissued, List.map_append, List.map_singleton] at hissues
  obtain ⟨inner, outer, rfl⟩ : ∃ inner outer, varying = [inner, outer] := by
    have hlength := congrArg List.length hissues
    exact List.length_eq_two.1 (by simpa [Document.nestedPool] using hlength)
  have haliases : name 'g' = last.aliasName ∧ name 'd' = outer.aliasName ∧
      name 'a' = inner.aliasName := by
    simpa [Document.nestedPool] using hissues
  rw [haliases.1, haliases.2.1, haliases.2.2] at htemplate hissued
  subst htemplate
  exact ⟨_, pool', inner, outer, last, hparse, hissued, rfl, hoperations, rfl, hpersistent, rfl,
    hspliced, hundo⟩

end Template

end Stencil
