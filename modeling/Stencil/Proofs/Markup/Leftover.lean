import Stencil.Proofs.Markup.Splice

/-!
# What a scan leaves

Each name is looked for once, and later the text goes on changing: regions of the same name, of
other names and of the persistent family give way to aliases, inside tags that were passed over and
across them. Still no tag that a name could bind is left in the end. A tag that begins to look
bindable would have an alias in its heading, and so the alias would be part of a registered name.

Main definitions:

* `Reads`, `Bindable`: headings and tags that a name could bind.
* `Settled`: a text in which the name has nothing to bind.
* `Neutral`: an alias that is not part of a name.

Main statements:

* `bindable_iff`: whether a tag is bindable depends on its heading alone.
* `Bindable.of_alias`: an alias makes no tag before it bindable.
* `Settled.of_spliced`: splices leave a text settled.
* `Course.settled`: a scan settles the text for its name.
* `settled_of_parse`: a template that is read is settled for all names.
-/

namespace Stencil

variable {family : Family} {registered : List String} {name : String}

/-- What a scan for `name` binds: `heading` is the name itself, blanks at its ends aside, or a list
of registered names. -/
def Reads (family : Family) (registered : List String) (name : String) (heading : List Char) :
    Prop :=
  Text.trim heading = name.toList ∨
    ∃ separator, family.separator? = some separator ∧ separator ∈ heading ∧
      ∀ listed ∈ Search.listedNames separator heading, listed ∈ registered

/-- The text starts with a tag that a name could bind: the name opens it, it is no close tag, and
what it reads up to the first `]` is bound. No close tag has to follow. -/
def Bindable (family : Family) (registered : List String) (name : String) (text : List Char) :
    Prop :=
  family.openPrefix name.toList <+: text ∧ ¬ family.closeTag <+: text ∧
    ∃ heading rest, text = '[' :: family.sigil :: heading ++ ']' :: rest ∧ ']' ∉ heading ∧
      Reads family registered name heading

/-- At no place of `text` stands a tag that `name` could bind. -/
def Settled (family : Family) (registered : List String) (name : String) (text : List Char) :
    Prop :=
  ∀ place, place <:+ text → ¬ Bindable family registered name place

/-- An alias made of letters that occurs in no registered name. -/
structure Neutral (registered : List String) (aliasName : String) : Prop where
  /-- It consists of letters. -/
  letters : ∀ c ∈ aliasName.toList, c ∈ AliasPool.letters
  /-- It is not part of a name. -/
  apart : ∀ listed ∈ registered, ¬ aliasName.toList <:+: listed.toList

/-! ### Headings with aliases -/

/-- A character of `letters` is no blank. -/
theorem AliasPool.isBlank_of_mem_letters {c : Char} (h : c ∈ letters) : Text.isBlank c = false := by
  have hall : letters.all (fun c => !Text.isBlank c) = true := by decide
  simpa using List.all_eq_true.1 hall c h

/-- A `word` without blanks that stands in a `heading` between separators stands in one of the names
listed. -/
theorem Search.exists_listed_of_infix {separator : Char} {word heading : List Char}
    (hne : word ≠ []) (hword : ∀ c ∈ word, Text.isBlank c = false) (hseparator : separator ∉ word)
    (h : word <:+: heading) :
    ∃ listed ∈ listedNames separator heading, word <:+: listed.toList := by
  obtain ⟨part, hpart, hin⟩ := Text.exists_infix_part hseparator h
  have htrimmed : word <:+: Text.trim part := Text.infix_trim hne hword hin
  refine ⟨String.ofList (Text.trim part), ?_, by rwa [String.toList_ofList]⟩
  refine List.mem_map_of_mem (List.mem_filter.2 ⟨List.mem_map_of_mem hpart, ?_⟩)
  simpa using htrimmed.ne_nil hne

namespace Neutral

variable {aliasName : String} {heading : List Char}

theorem ne_nil (h : Neutral registered aliasName) (hname : name ∈ registered) :
    aliasName.toList ≠ [] := by
  intro hnil
  apply h.apart name hname
  rw [hnil]
  exact List.nil_infix

theorem notMem {c : Char} (h : Neutral registered aliasName) (hc : c ∉ AliasPool.letters) :
    c ∉ aliasName.toList :=
  fun hmem => hc (h.letters c hmem)

/-- A `heading` with a neutral alias in it is neither a name nor a list of names. -/
theorem not_reads (h : Neutral registered aliasName) (hname : name ∈ registered)
    (hinside : aliasName.toList <:+: heading) : ¬ Reads family registered name heading := by
  have hplain : ∀ c ∈ aliasName.toList, Text.isBlank c = false :=
    fun c hc => AliasPool.isBlank_of_mem_letters (h.letters c hc)
  rintro (htrim | ⟨separator, hseparator, -, hlisted⟩)
  · apply h.apart name hname
    rw [← htrim]
    exact Text.infix_trim (h.ne_nil hname) hplain hinside
  · -- one of the listed names has the alias in it
    have hletter : separator ∉ AliasPool.letters := by
      revert hseparator
      cases family <;> simp [Family.separator?] <;> rintro rfl <;> decide
    obtain ⟨listed, hmem, hin⟩ :=
      Search.exists_listed_of_infix (h.ne_nil hname) hplain (h.notMem hletter) hinside
    exact h.apart listed (hlisted listed hmem) hin

end Neutral

/-! ### Tags and places -/

/-- Whether a tag is `Bindable` depends on its `heading` alone. -/
theorem bindable_iff (hbracket : ']' ∉ name.toList) {heading rest : List Char}
    (hheading : ']' ∉ heading) :
    Bindable family registered name ('[' :: family.sigil :: heading ++ ']' :: rest) ↔
      name.toList <+: heading ∧ heading ≠ ['e', 'n', 'd'] ∧
        Reads family registered name heading := by
  -- the heading is what comes up to the first bracket that closes
  have hopens : family.openPrefix name.toList <+: '[' :: family.sigil :: heading ++ ']' :: rest ↔
      name.toList <+: heading := by
    rw [Family.openPrefix]
    simp only [List.cons_append, List.cons_prefix_cons, true_and]
    exact Text.prefix_append_cons_iff hbracket
  unfold Bindable
  rw [hopens, Family.closeTag_prefix_iff hheading]
  constructor
  · rintro ⟨hopen, hclose, other, rest', htext, hother, hreads⟩
    simp only [List.cons_append, List.cons.injEq, true_and] at htext
    obtain ⟨rfl, -⟩ := Text.append_cons_inj hheading hother htext
    exact ⟨hopen, hclose, hreads⟩
  · rintro ⟨hopen, hclose, hreads⟩
    exact ⟨hopen, hclose, heading, rest, rfl, hheading, hreads⟩

/-- An alias makes no tag before it bindable: with any other `text` in its place, the tag is
bindable too. -/
theorem Bindable.of_alias {aliasName : String} (halias : Neutral registered aliasName)
    (hname : name ∈ registered) (hbracket : ']' ∉ name.toList) {start rest : List Char}
    (hstart : start ≠ [])
    (h : Bindable family registered name (start ++ aliasName.toList ++ rest))
    (text : List Char) : Bindable family registered name (start ++ text ++ rest) := by
  obtain ⟨-, -, heading, behind, htext, hheading, hreads⟩ := id h
  -- the bracket and the sigil stand before the alias, which has letters only
  obtain ⟨front, rfl⟩ : ∃ front, start = '[' :: family.sigil :: front := by
    rcases start with _ | ⟨c, _ | ⟨d, front⟩⟩
    · exact absurd rfl hstart
    · obtain ⟨letter, letters, hletters⟩ := List.exists_cons_of_ne_nil (halias.ne_nil hname)
      rw [hletters] at htext
      simp only [List.cons_append, List.nil_append, List.cons.injEq] at htext
      have hmem : family.sigil ∈ AliasPool.letters := by
        apply halias.letters
        rw [hletters, htext.2.1]
        exact List.mem_cons_self
      exact absurd hmem (by cases family <;> decide)
    · simp only [List.cons_append, List.cons.injEq] at htext
      exact ⟨front, by rw [htext.1, htext.2.1]⟩
  by_cases hend : ']' ∈ front
  · -- the tag ends before the alias
    obtain ⟨inner, outer, rfl, hinner⟩ := List.eq_append_cons_of_mem hend
    have htag : ∀ middle : List Char,
        '[' :: family.sigil :: (inner ++ ']' :: outer) ++ middle ++ rest =
          '[' :: family.sigil :: inner ++ ']' :: (outer ++ middle ++ rest) := by
      intro middle
      simp
    rw [htag, bindable_iff hbracket hinner] at h ⊢
    exact h
  · -- the tag ends behind the alias, which is then part of the heading
    have hfront : ']' ∉ front ++ aliasName.toList := by
      rw [List.mem_append, not_or]
      exact ⟨hend, halias.notMem (by decide)⟩
    have hinside : aliasName.toList <:+: heading := by
      simp only [List.cons_append, List.cons.injEq, true_and] at htext
      rcases List.append_eq_append_iff.1 htext with ⟨more, rfl, -⟩ | ⟨more, hmore, hrest⟩
      · exact ⟨front, more, rfl⟩
      · cases more with
        | nil =>
          rw [List.append_nil] at hmore
          exact ⟨front, [], by rw [hmore, List.append_nil]⟩
        | cons c more =>
          rw [List.cons_append, List.cons.injEq] at hrest
          rw [hmore, ← hrest.1] at hfront
          simp at hfront
    exact absurd hreads (halias.not_reads hname hinside)

/-- If a tag that starts in `start` is bindable in front of `text'`, it is in front of `text`, out
of which `splices` have made it. -/
theorem Bindable.of_spliced {text text' : List Char} {splices : List Splice}
    (hspliced : Spliced text splices text')
    (halias : ∀ splice ∈ splices, Neutral registered splice.aliasName)
    (hname : name ∈ registered) (hbracket : ']' ∉ name.toList) {start : List Char}
    (hstart : start ≠ []) (h : Bindable family registered name (start ++ text')) :
    Bindable family registered name (start ++ text) := by
  induction hspliced with
  | nil => exact h
  | @cons splice splices _ _ ih =>
    obtain ⟨hfirst, hrest⟩ := List.forall_mem_cons.1 halias
    have hresult := ih hrest h
    have hbefore : start ++ splice.before ≠ [] := by simp [hstart]
    rw [Splice.result, ← List.append_assoc, ← List.append_assoc] at hresult
    have hsource := hresult.of_alias hfirst hname hbracket hbefore
      (splice.body ++ splice.family.closeTag)
    simpa [Splice.source, Splice.tail] using hsource

/-- The text `start ++ text` is settled when `text` is, and no tag that starts in `start` is
bindable. -/
theorem settled_append_iff {start text : List Char} :
    Settled family registered name (start ++ text) ↔
      Settled family registered name text ∧
        ∀ front, front <:+ start → front ≠ [] →
          ¬ Bindable family registered name (front ++ text) := by
  constructor
  · intro h
    refine ⟨fun place hplace => h place (hplace.trans (List.suffix_append _ _)), ?_⟩
    intro front hfront _
    exact h _ (List.suffix_append_self_iff.2 hfront)
  · rintro ⟨htext, hstart⟩ place hplace
    rcases Text.suffix_append_cases hplace with hplace | ⟨front, hne, hfront, rfl⟩
    · exact htext place hplace
    · exact hstart front hfront hne

/-- No tag starts in a neutral alias. -/
theorem Neutral.settled_append {aliasName : String} (h : Neutral registered aliasName)
    {text : List Char} (htext : Settled family registered name text) :
    Settled family registered name (aliasName.toList ++ text) := by
  refine settled_append_iff.2 ⟨htext, ?_⟩
  rintro front hfront hne ⟨-, -, heading, rest, htag, -⟩
  -- a tag would start with a bracket, which is no letter
  obtain ⟨c, front, rfl⟩ := List.exists_cons_of_ne_nil hne
  simp only [List.cons_append, List.cons.injEq] at htag
  rw [htag.1] at hfront
  exact h.notMem (by decide) (hfront.subset List.mem_cons_self)

/-- Splices leave a text settled for `name`. -/
theorem Settled.of_spliced {text text' : List Char} {splices : List Splice}
    (hspliced : Spliced text splices text')
    (halias : ∀ splice ∈ splices, Neutral registered splice.aliasName)
    (hname : name ∈ registered) (hbracket : ']' ∉ name.toList)
    (h : Settled family registered name text) : Settled family registered name text' := by
  induction hspliced with
  | nil => exact h
  | @cons splice splices _ _ ih =>
    obtain ⟨hfirst, hrest⟩ := List.forall_mem_cons.1 halias
    apply ih hrest
    obtain ⟨htail, hbefore⟩ := settled_append_iff.1 h
    have hafter : Settled family registered name splice.after := (settled_append_iff.1 htail).1
    rw [Splice.result, List.append_assoc]
    refine settled_append_iff.2 ⟨hfirst.settled_append hafter, fun front hfront hne hbind => ?_⟩
    -- the region in the place of the alias would leave the tag bindable
    rw [← List.append_assoc] at hbind
    have hsource := hbind.of_alias hfirst hname hbracket hne
      (splice.body ++ splice.family.closeTag)
    rw [List.append_assoc] at hsource
    exact hbefore front hfront hne hsource

/-! ### What a scan passes over -/

namespace Site

/-- Where `locate` finds no open tag for `name`, none stands at any `place`. -/
theorem not_open_of_locate_none {text place : List Char} (h : locate family name text = .ok none)
    (hplace : place <:+ text) :
    ¬ (family.openPrefix name.toList <+: place ∧ ¬ family.closeTag <+: place) := by
  have hnone : splitOpen (family.openPrefix name.toList) family.closeTag text = none := by
    unfold locate at h
    simp only at h
    split at h
    · assumption
    · split at h
      · cases h
      · split at h <;> cases h
  -- the induction is on the text that `splitOpen` searches
  clear h
  induction text with
  | nil =>
    rw [List.suffix_nil] at hplace
    simp [hplace, Family.openPrefix]
  | cons c text ih =>
    rw [splitOpen] at hnone
    split at hnone
    · cases hnone
    · rename_i hopen
      rcases List.suffix_cons_iff.1 hplace with rfl | hplace
      · simpa using hopen
      · exact ih hplace (Option.map_eq_none_iff.1 hnone)

/-- No open tag for `name` starts in `site.before`. -/
theorem not_open_of_locate {text front : List Char} {site : Site}
    (h : locate family name text = .ok (some site)) (hfront : front <:+ site.before)
    (hne : front ≠ []) :
    ¬ (family.openPrefix name.toList <+: front ++ '[' :: site.rest ∧
      ¬ family.closeTag <+: front ++ '[' :: site.rest) := by
  obtain ⟨-, -, hsome, -⟩ := parts_of_locate h
  -- the induction is on the text that `splitOpen` searches, with any text before the site
  -- the induction is on the text that `splitOpen` searches, with any text before the site
  -- the induction is on the text that `splitOpen` searches, with any text before the site
  clear h
  generalize site.before = before at hsome hfront
  induction text generalizing before with
  | nil => cases hsome
  | cons c text ih =>
    have htext := (eq_of_splitOpen hsome).1
    rw [splitOpen] at hsome
    split at hsome
    · cases hsome
      exact absurd (List.suffix_nil.1 hfront) hne
    · rename_i hopen
      obtain ⟨⟨before', rest⟩, hsplit, heq⟩ := Option.map_eq_some_iff.1 hsome
      simp only [Prod.mk.injEq] at heq
      obtain ⟨rfl, rfl⟩ := heq
      rcases List.suffix_cons_iff.1 hfront with rfl | hfront
      · rw [← htext]
        simpa using hopen
      · exact ih _ hsplit hfront

end Site

namespace Search

variable {search : Search} {pool : AliasPool} {text heading : List Char} {splices : List Splice}
  {scanned : Scanned}

/-- A `heading` that is passed over is not one to be bound. -/
theorem not_reads_of_boundNames (h : search.boundNames heading = .ok none) :
    ¬ Reads search.family registered search.name heading := by
  unfold boundNames at h
  split at h
  · simp only at h
    split at h <;> cases h
  · rename_i hplain
    split at h
    · cases h
    · rename_i hother
      rintro (htrim | ⟨separator, hseparator, hmem, -⟩)
      · exact hother htrim
      · rw [Option.filter_eq_none_iff] at hplain
        exact hplain separator hseparator (by simpa using hmem)

/-- A scan settles the text for `search.name`: what it passes over is not bindable, and does not
become so when regions behind it are taken out. -/
theorem Course.settled (hname : search.name ∈ search.registered)
    (hmem : search.name ∈ registered) (hbracket : ']' ∉ search.name.toList)
    (h : search.Course pool text splices scanned)
    (halias : ∀ splice ∈ splices, Neutral registered splice.aliasName) :
    Settled search.family registered search.name scanned.text := by
  induction h with
  | stop hsite =>
    intro place hplace hbind
    exact Site.not_open_of_locate_none hsite hplace ⟨hbind.1, hbind.2.1⟩
  | @pass pool text site splices scanned hsite hbound rest ih =>
    rw [List.forall_mem_map] at halias
    refine settled_append_iff.2 ⟨ih halias, fun front hfront hne hbind => ?_⟩
    -- the tag was not bindable before the splices behind it
    have hfirst := hbind.of_spliced (rest.traced hname).spliced halias hmem hbracket hne
    obtain ⟨-, hopens, hnot, hrest, hheading, -⟩ := Site.sound_of_locate hsite
    rcases List.suffix_concat_iff.1 hfront with rfl | ⟨front, rfl, hbefore⟩
    · exact hne rfl
    · rw [List.append_assoc, List.singleton_append] at hfirst
      by_cases hempty : front = []
      · -- it is the tag of the site itself
        have htag : '[' :: site.rest = '[' :: search.family.sigil :: site.heading ++
            ']' :: (site.literal ++ search.family.closeTag ++ site.after) := by
          rw [hrest]
          simp
        rw [hempty, List.nil_append, htag, bindable_iff hbracket hheading] at hfirst
        exact not_reads_of_boundNames hbound hfirst.2.2
      · exact Site.not_open_of_locate hsite hbefore hempty ⟨hfirst.1, hfirst.2.1⟩
  | @bind pool next text site aliasName splices scanned hsite hnames hfresh rest ih =>
    obtain ⟨hneutral, hothers⟩ := List.forall_mem_cons.1 halias
    rw [List.forall_mem_map] at hothers
    have htext : (scanned.withRegion site.before (site.splice search aliasName).region).text =
        site.before ++ (aliasName.toList ++ scanned.text) := List.append_assoc _ _ _
    rw [htext]
    refine settled_append_iff.2 ⟨hneutral.settled_append (ih hothers), ?_⟩
    intro front hfront hne hbind
    -- the tag was not bindable before the splices behind it, and neither before this one
    rw [← List.append_assoc] at hbind
    have hlater : Bindable search.family registered search.name
        (front ++ aliasName.toList ++ site.after) :=
      hbind.of_spliced (rest.traced hname).spliced hothers hmem hbracket (by simp [hne])
    obtain ⟨-, -, -, hrest, -⟩ := Site.sound_of_locate hsite
    have hfirst := hlater.of_alias hneutral hmem hbracket hne
      ('[' :: search.family.sigil :: site.heading ++ ']' :: site.literal ++ search.family.closeTag)
    rw [List.append_assoc, ← hrest] at hfirst
    exact Site.not_open_of_locate hsite hfront hne ⟨hfirst.1, hfirst.2.1⟩

end Search

/-! ### What is left of a template -/

namespace Template

/-- The scans for `names` settle `found.text` for each `name` of them. -/
theorem Passes.settled {names known : List String} {avoid : List Char} {start found : Scanned}
    {splices : List Splice} (hnames : ∀ name ∈ names, name ∈ known)
    (h : Passes family known avoid names start splices found)
    (halias : ∀ splice ∈ splices, Neutral registered splice.aliasName) (hmem : name ∈ registered)
    (hbracket : ']' ∉ name.toList) (hname : name ∈ names) :
    Settled family registered name found.text := by
  induction h with
  | nil => cases hname
  | @cons first names start middle found splices more head tail ih =>
    obtain ⟨hfirst, hrest⟩ := List.forall_mem_cons.1 hnames
    rw [List.forall_mem_append] at halias
    rcases List.mem_cons.1 hname with rfl | hname
    · -- settled by its own scan, and left so by the scans for the other names
      have hscan : Settled family registered name middle.text :=
        head.settled hfirst hmem hbracket halias.1
      exact hscan.of_spliced (tail.traced hrest).spliced halias.2 hmem hbracket
    · exact ih hrest halias.2 hname

/-- The pass for a family settles `found.text` for all its `names`. -/
theorem settled_of_scanFamily {family? : Option Family} {names : List String}
    {avoid text : List Char} {pool : AliasPool} {found : Scanned}
    (hall : ∀ listed ∈ names, listed ∈ registered) (hbracket : ∀ name ∈ names, ']' ∉ name.toList)
    (h : scanFamily family? names avoid pool text = .ok found) :
    ∃ splices, Spliced text splices found.text ∧
      AliasPool.Draws avoid pool (splices.map Splice.aliasName) found.pool ∧
      ((∀ splice ∈ splices, Neutral registered splice.aliasName) →
        ∀ family, family? = some family →
          ∀ name ∈ names, Settled family registered name found.text) := by
  cases family? with
  | none =>
    cases h
    exact ⟨[], .nil _, .nil _, by simp⟩
  | some family =>
    obtain ⟨splices, hpasses⟩ := passes_of_scanNames (fun _ => id) h
    have htraced := hpasses.traced fun _ => id
    refine ⟨splices, htraced.spliced, htraced.draws, ?_⟩
    rintro halias _ ⟨⟩ name hname
    exact hpasses.settled (fun _ => id) halias (hall name hname) (hbracket name hname) hname

/-- No region is missed. In the text of a `template` that is read, no tag is left that a registered
name could bind (`Settled`): neither one of the iterative family of the mode with a name in
`names.iterative`, nor a persistent one with a name in `names.persistent`, whether or not a close
tag follows it. The aliases that `pool'` has issued are taken not to be parts of registered
names. -/
theorem settled_of_parse {source : String} {names : TransformNames} {pool pool' : AliasPool}
    {template : Template}
    (hvalid : ∀ name ∈ names.iterative ++ names.persistent, Transforms.nameFlaw? name = none)
    (haliases : ∀ aliasName ∈ pool'.issued, aliasName ∉ pool.issued →
      ∀ name ∈ names.iterative ++ names.persistent, ¬ aliasName.toList <:+: name.toList)
    (h : parse source names pool = .ok (template, pool')) :
    (∀ family, template.mode.family? = some family → ∀ name ∈ names.iterative,
      Settled family (names.iterative ++ names.persistent) name template.text.toList) ∧
      ∀ name ∈ names.persistent,
        Settled .persistent (names.iterative ++ names.persistent) name template.text.toList := by
  obtain ⟨first, second, -, hfirst, hsecond, htext, -, -, rfl⟩ := exists_of_parse h
  have hbracket : ∀ name ∈ names.iterative ++ names.persistent, ']' ∉ name.toList :=
    fun name hname => notMem_of_isReserved (hvalid name hname) (by decide)
  have hiterative : ∀ name ∈ names.iterative, name ∈ names.iterative ++ names.persistent :=
    fun _ => List.mem_append_left _
  have hpersistent : ∀ name ∈ names.persistent, name ∈ names.iterative ++ names.persistent :=
    fun _ => List.mem_append_right _
  obtain ⟨varying, -, hdraws, hvarying⟩ := settled_of_scanFamily hiterative
    (fun name hname => hbracket name (hiterative name hname)) hfirst
  obtain ⟨lasting, hspliced, hdraws', hlasting⟩ := settled_of_scanFamily hpersistent
    (fun name hname => hbracket name (hpersistent name hname)) hsecond
  -- every alias of either pass is newly issued, and so apart from the names
  have hissues : AliasPool.Draws source.toList pool ((varying ++ lasting).map Splice.aliasName)
      second.pool := by
    rw [List.map_append]
    exact AliasPool.Draws.append_iff.2 ⟨first.pool, hdraws, hdraws'⟩
  have hneutral : ∀ splice ∈ varying ++ lasting,
      Neutral (names.iterative ++ names.persistent) splice.aliasName := by
    intro splice hsplice
    have hmem := List.mem_map_of_mem (f := Splice.aliasName) hsplice
    refine ⟨fun c hc => ?_, haliases _ ?_ (hissues.nodup_append_issued.2 _ hmem)⟩
    · by_contra hletter
      exact hissues.notMem_of_notMem_letters hmem hletter hc
    · rw [hissues.issued, List.mem_append, List.mem_reverse]
      exact .inl hmem
  rw [List.forall_mem_append] at hneutral
  rw [htext, String.toList_ofList]
  refine ⟨fun family hfamily name hname => ?_, hlasting hneutral.2 _ rfl⟩
  -- the pass for persistent regions leaves the text settled
  have hsettled := hvarying hneutral.1 family hfamily name hname
  exact hsettled.of_spliced hspliced hneutral.2 (hiterative name hname)
    (hbracket name (hiterative name hname))

/-- The tag of `a` is passed over because its heading is no list yet. When the region of `b` gives
way to an alias, the heading becomes one, and a close tag stands behind it; but the alias in it is
not registered. -/
theorem settled_of_parse_inner_region :
    ∃ (template : Template) (pool' : AliasPool),
      parse "[+a [+b]x[+end];c] y[+end]" ⟨["a", "b", "c"], ["p"]⟩ Document.nestedPool =
        .ok (template, pool') ∧
      template.text = "[+a aaaaaaaaaaaaaaaaaaaaaaaaaaaaaaaa;c] y[+end]" ∧
      (∀ name ∈ ["a", "b", "c"],
        Settled .single ["a", "b", "c", "p"] name template.text.toList) ∧
      ∀ name ∈ ["p"], Settled .persistent ["a", "b", "c", "p"] name template.text.toList := by
  have hread : (parse "[+a [+b]x[+end];c] y[+end]" ⟨["a", "b", "c"], ["p"]⟩
      Document.nestedPool).toOption.map (fun read => (read.1.mode, read.1.text, read.2.issued)) =
        some (.single, "[+a aaaaaaaaaaaaaaaaaaaaaaaaaaaaaaaa;c] y[+end]",
          ["aaaaaaaaaaaaaaaaaaaaaaaaaaaaaaaa"]) := by
    decide +kernel
  obtain ⟨⟨template, pool'⟩, hparse, hread⟩ := Except.exists_of_toOption_map hread
  simp only [Prod.mk.injEq] at hread
  obtain ⟨hmode, htext, hissued⟩ := hread
  have haliases : ∀ aliasName ∈ pool'.issued, aliasName ∉ Document.nestedPool.issued →
      ∀ name ∈ ["a", "b", "c"] ++ ["p"], ¬ aliasName.toList <:+: name.toList := by
    rw [hissued]
    decide
  obtain ⟨hiterative, hpersistent⟩ := settled_of_parse (by decide) haliases hparse
  refine ⟨template, pool', hparse, htext, ?_, hpersistent⟩
  exact hiterative .single (by rw [hmode]; rfl)

end Template

end Stencil
