import Stencil.Proofs.Markup.Scan

/-!
# A region in a scan

A scan for a name comes to a region. If the heading lists several names, the region is bound when
the name starts the first of them. If it lists one name, the region is bound when this is the name
itself, and is passed over when the name merely starts it.

Main definitions:

* `claims`: whether a scan for a name binds a region.
* `Slot.region`: what it makes of the region.

Main statements:

* `boundNames_heading`: what the heading of a region binds.
* `locate_markup`: the parts into which a region comes apart.
* `scan_markup_of_not_claims`, `scan_markup_of_claims`: a scan behind a region.
-/

namespace Stencil

/-- Whether a scan for `name` binds the region whose heading lists `names`. -/
def claims (name : String) : List String → Bool
  | [] => false
  -- without separators the heading has to be the name itself
  | [only] => only == name
  -- with separators it is enough that the tag starts with the name
  | first :: _ :: _ => name.toList.isPrefixOf first.toList

/-- The first `name` of a heading binds its region. -/
theorem claims_head (name : String) (names : List String) :
    claims name (name :: names) = true := by
  cases names with
  | nil => simp [claims]
  | cons second names => simp [claims, List.isPrefixOf_iff_prefix]

namespace Family

/-- The character `family.joint` cannot stand in a name. -/
theorem isReserved_joint (family : Family) : Transforms.isReserved family.joint = true := by
  cases family <;> decide

theorem ne_joint_of_bracket (family : Family) : '[' ≠ family.joint ∧ ']' ≠ family.joint := by
  cases family <;> decide

/-- The sigil of `family` is no bracket. -/
theorem sigil_ne_bracket (family : Family) : '[' ≠ family.sigil ∧ ']' ≠ family.sigil := by
  cases family <;> decide

/-- A tag is a close tag when its heading reads `end`. -/
theorem closeTag_prefix_iff {family : Family} {heading rest : List Char} (h : ']' ∉ heading) :
    family.closeTag <+: '[' :: family.sigil :: heading ++ ']' :: rest ↔
      heading = ['e', 'n', 'd'] := by
  rw [Family.closeTag]
  simp only [List.cons_append, List.cons_prefix_cons, true_and]
  constructor
  · rintro ⟨more, hmore⟩
    -- the first `]` has `end` in front of it on the left, and the heading on the right
    rw [show ['e', 'n', 'd', ']'] ++ more = ['e', 'n', 'd'] ++ ']' :: more from rfl] at hmore
    exact (Text.append_cons_inj (by decide) h hmore).1.symm
  · rintro rfl
    exact ⟨rest, rfl⟩

/-- The character that divides headings of `family`, if it has one, is `family.joint`. -/
theorem separator?_eq_joint {family : Family} (h : family.separator? ≠ none) :
    family.separator? = some family.joint := by
  cases family with
  | single => rfl
  | persistent => rfl
  | lockstep => exact absurd rfl h
  | cross => exact absurd rfl h

end Family

/-- A `name` that can be registered lacks the characters of tags and headings. -/
theorem notMem_of_isReserved {name : String} {c : Char} (hname : Transforms.nameFlaw? name = none)
    (hc : Transforms.isReserved c = true) : c ∉ name.toList := by
  intro hmem
  rw [(Transforms.nameFlaw?_eq_none_iff.1 hname).2.2 c hmem] at hc
  exact Bool.false_ne_true hc

/-- A `name` that can be registered has no blanks at its ends. -/
theorem trim_name {name : String} (hname : Transforms.nameFlaw? name = none) :
    Text.trim name.toList = name.toList := by
  refine Text.trim_eq_self fun c hc => ?_
  have hreserved := (Transforms.nameFlaw?_eq_none_iff.1 hname).2.2 c hc
  simp only [Transforms.isReserved, Bool.or_eq_false_iff] at hreserved
  exact hreserved.1.1.1.1

namespace Slot

variable {ι : Type} {slot : Slot ι} {family : Family} {registered : List String}

/-- The region that a scan makes of `slot`, with `aliasName` as its alias. -/
def region (family : Family) (aliasName : String) (slot : Slot ι) : Region :=
  ⟨String.ofList (slot.heading family), slot.names, aliasName, String.ofList slot.literal⟩

/-- The heading of `slot` has no reserved characters but `family.joint`. -/
theorem notMem_heading (hvalid : ∀ name ∈ slot.names, Transforms.nameFlaw? name = none) {c : Char}
    (hc : Transforms.isReserved c = true) (hne : c ≠ family.joint) : c ∉ slot.heading family := by
  refine Text.notMem_intercalate hne fun part hpart => ?_
  obtain ⟨name, hname, rfl⟩ := List.mem_map.1 hpart
  exact notMem_of_isReserved (hvalid name hname) hc

/-- No heading reads `end`. -/
theorem heading_ne_end (hvalid : ∀ name ∈ slot.names, Transforms.nameFlaw? name = none) :
    slot.heading family ≠ ['e', 'n', 'd'] := by
  rw [heading]
  cases hnames : slot.names with
  | nil => simp
  | cons first names =>
    have hfirst := Transforms.nameFlaw?_eq_none_iff.1 (hvalid first (by simp [hnames]))
    cases names with
    | nil =>
      -- the only name would be `end`, which is reserved
      intro hend
      refine hfirst.2.1 (String.toList_inj.1 ?_)
      rw [List.map_singleton, List.intercalate_singleton] at hend
      rw [hend]
      rfl
    | cons second names =>
      -- the character between the names would be one of `end`
      intro hend
      have hjoint : family.joint ∈ ['e', 'n', 'd'] := by
        rw [← hend, List.map_cons, List.map_cons, List.intercalate_cons_cons]
        simp
      have := family.isReserved_joint
      revert this hjoint
      cases family <;> decide

/-- The heading of `slot`, divided at `family.joint`, lists `slot.names`. -/
theorem listedNames_heading (hvalid : ∀ name ∈ slot.names, Transforms.nameFlaw? name = none)
    (hne : slot.names ≠ []) :
    Search.listedNames family.joint (slot.heading family) = slot.names := by
  -- the parts are the names, which have no blanks around them, and none of which is blank
  have hparts : Text.splitOn family.joint (slot.heading family) = slot.names.map String.toList := by
    refine Text.splitOn_intercalate (by simpa using hne) fun part hpart => ?_
    obtain ⟨name, hname, rfl⟩ := List.mem_map.1 hpart
    exact notMem_of_isReserved (hvalid name hname) family.isReserved_joint
  have htrim : (slot.names.map String.toList).map Text.trim = slot.names.map String.toList := by
    rw [List.map_map]
    refine List.map_congr_left fun name hname => ?_
    exact trim_name (hvalid name hname)
  have hkeep : (slot.names.map String.toList).filter (· ≠ []) = slot.names.map String.toList := by
    refine List.filter_eq_self.2 fun part hpart => ?_
    obtain ⟨name, hname, rfl⟩ := List.mem_map.1 hpart
    simpa using (Transforms.nameFlaw?_eq_none_iff.1 (hvalid name hname)).1
  rw [Search.listedNames, hparts, htrim, hkeep, List.map_map]
  simp [Function.comp_def]

/-- The region `slot` without its first bracket. -/
def tail (family : Family) (slot : Slot ι) : List Char :=
  family.sigil :: slot.heading family ++ ']' :: slot.literal ++ family.closeTag

theorem markup_eq_cons (slot : Slot ι) (family : Family) :
    slot.markup family = '[' :: slot.tail family := rfl

theorem markup_append (slot : Slot ι) (family : Family) (rest : List Char) :
    slot.markup family ++ rest = '[' :: family.sigil ::
      (slot.heading family ++ ']' :: (slot.literal ++ (family.closeTag ++ rest))) := by
  simp [markup]

/-- The open prefix of `name` starts the markup of `slot` exactly when `name` starts the heading. -/
theorem openPrefix_prefix_markup {name : String} (hname : ']' ∉ name.toList) (rest : List Char) :
    family.openPrefix name.toList <+: slot.markup family ++ rest ↔
      name.toList <+: slot.heading family := by
  rw [markup_append, Family.openPrefix, List.cons_prefix_cons, List.cons_prefix_cons]
  simp only [true_and]
  exact Text.prefix_append_cons_iff hname

/-- The markup of `slot` does not start with a close tag. -/
theorem closeTag_not_prefix_markup
    (hvalid : ∀ name ∈ slot.names, Transforms.nameFlaw? name = none) (rest : List Char) :
    ¬ family.closeTag <+: slot.markup family ++ rest := by
  have hbracket : ']' ∉ slot.heading family :=
    notMem_heading hvalid (by decide) family.ne_joint_of_bracket.2
  rw [markup_append]
  exact fun hclose => heading_ne_end hvalid ((Family.closeTag_prefix_iff hbracket).1 hclose)

/-- The region `slot` is opened by a `name` that starts its heading. -/
theorem splitOpen_markup {name : String} (hname : Transforms.nameFlaw? name = none)
    (hvalid : ∀ name ∈ slot.names, Transforms.nameFlaw? name = none)
    (hstart : name.toList <+: slot.heading family) (rest : List Char) :
    Site.splitOpen (family.openPrefix name.toList) family.closeTag (slot.markup family ++ rest) =
      some ([], slot.tail family ++ rest) := by
  have hprefix : (family.openPrefix name.toList).isPrefixOf
      (slot.markup family ++ rest) = true :=
    List.isPrefixOf_iff_prefix.2
      ((openPrefix_prefix_markup (notMem_of_isReserved hname (by decide)) rest).2 hstart)
  have hclose : family.closeTag.isPrefixOf (slot.markup family ++ rest) = false := by
    rw [← Bool.not_eq_true, List.isPrefixOf_iff_prefix]
    exact closeTag_not_prefix_markup hvalid rest
  rw [markup_eq_cons, List.cons_append] at hprefix hclose ⊢
  rw [Site.splitOpen, hprefix, hclose]
  rfl

/-- The first close tag is that of `slot`: it has a bracket, which nothing before it has. -/
theorem splitFirst_closeTag_markup
    (hvalid : ∀ name ∈ slot.names, Transforms.nameFlaw? name = none) (hliteral : '[' ∉ slot.literal)
    (rest : List Char) :
    Text.splitFirst family.closeTag (slot.markup family ++ rest) =
      some ('[' :: family.sigil :: slot.heading family ++ ']' :: slot.literal, rest) := by
  have hclose : family.closeTag.isPrefixOf (slot.markup family ++ rest) = false := by
    rw [← Bool.not_eq_true, List.isPrefixOf_iff_prefix]
    exact closeTag_not_prefix_markup hvalid rest
  have hheading : '[' ∉ slot.heading family :=
    notMem_heading hvalid (by decide) family.ne_joint_of_bracket.1
  -- there is no other bracket that the close tag could start at
  have hplain : '[' ∉ family.sigil :: slot.heading family ++ ']' :: slot.literal := by
    simp [family.sigil_ne_bracket.1, hheading, hliteral]
  rw [markup_eq_cons, List.cons_append] at hclose ⊢
  rw [Text.splitFirst, hclose, if_neg Bool.false_ne_true, tail, List.append_assoc,
    Family.closeTag, Text.splitFirst_append hplain, Text.splitFirst_self (by simp)]
  simp

/-- The parts into which the markup of `slot` comes apart in a scan for `name`. -/
theorem locate_markup {name : String} (hname : Transforms.nameFlaw? name = none)
    (hvalid : ∀ name ∈ slot.names, Transforms.nameFlaw? name = none) (hliteral : '[' ∉ slot.literal)
    (hstart : name.toList <+: slot.heading family) (rest : List Char) :
    Site.locate family name (slot.markup family ++ rest) =
      .ok (some ⟨[], slot.tail family ++ rest, slot.heading family, slot.literal, rest⟩) := by
  have hopen := splitOpen_markup hname hvalid hstart rest
  have hinner : Text.splitFirst family.closeTag (slot.markup family ++ rest) =
      some ('[' :: family.sigil :: slot.heading family ++ ']' :: slot.literal, rest) :=
    splitFirst_closeTag_markup hvalid hliteral rest
  have htag : Text.splitFirst [']']
      ('[' :: family.sigil :: slot.heading family ++ ']' :: slot.literal) =
        some ('[' :: family.sigil :: slot.heading family, slot.literal) := by
    have hheading : ']' ∉ slot.heading family :=
      notMem_heading hvalid (by decide) family.ne_joint_of_bracket.2
    refine Text.splitFirst_singleton ?_ slot.literal
    simp [family.sigil_ne_bracket.2, hheading]
  rw [markup_eq_cons, List.cons_append] at hopen hinner ⊢
  simp only [Site.locate, hopen, hinner, htag]
  rfl

/-- A `name` that binds `slot` starts its heading. -/
theorem prefix_heading_of_claims {name : String} (h : claims name slot.names = true) :
    name.toList <+: slot.heading family := by
  rw [heading]
  cases hnames : slot.names with
  | nil => simp [hnames, claims] at h
  | cons first names =>
    cases names with
    | nil =>
      rw [hnames, claims, beq_iff_eq] at h
      exact ⟨[], by rw [List.append_nil, h, List.map_singleton, List.intercalate_singleton]⟩
    | cons second names =>
      rw [hnames, claims, List.isPrefixOf_iff_prefix] at h
      rw [List.map_cons, List.map_cons, List.intercalate_cons_cons, List.append_assoc]
      exact h.trans (List.prefix_append _ _)

/-- A heading that is `name` binds this name only. -/
theorem boundNames_name {name : String} (hname : Transforms.nameFlaw? name = none)
    (search : Search) :
    search.boundNames name.toList =
      .ok (if claims search.name [name] then some [name] else none) := by
  -- no separator stands in a name, so the heading is compared as a whole
  have hplain : search.family.separator?.filter name.toList.contains = none := by
    refine Option.filter_eq_none_iff.2 fun separator hseparator => ?_
    rw [Family.separator?_eq_joint (by simp [hseparator])] at hseparator
    simp only [Option.some.injEq] at hseparator
    rw [← hseparator]
    simpa using notMem_of_isReserved hname search.family.isReserved_joint
  rw [Search.boundNames, hplain, trim_name hname]
  by_cases heq : name = search.name
  · simp [claims, heq]
  · simp [claims, heq, String.toList_inj]

/-- A heading of several registered names binds all of `slot.names`. -/
theorem boundNames_several {search : Search} {first second : String} {names : List String}
    (hslot : slot.Sound search.family search.registered)
    (hvalid : ∀ name ∈ slot.names, Transforms.nameFlaw? name = none)
    (hnames : slot.names = first :: second :: names) :
    search.boundNames (slot.heading search.family) = .ok (some slot.names) := by
  have hseparator : search.family.separator? = some search.family.joint := by
    refine Family.separator?_eq_joint fun hnone => ?_
    have hone := hslot.alone hnone
    simp [hnames] at hone
  -- two names have a separator between them
  have hcontains : (slot.heading search.family).contains search.family.joint = true := by
    rw [List.contains_iff_mem, heading, hnames, List.map_cons, List.map_cons,
      List.intercalate_cons_cons]
    simp
  have hknown : slot.names.find? (fun name => !search.registered.contains name) = none := by
    refine List.find?_eq_none.2 fun name hmem => ?_
    simpa using hslot.registered name hmem
  rw [Search.boundNames, hseparator, Option.filter_some, hcontains, if_pos rfl]
  simp only [listedNames_heading hvalid hslot.names_ne_nil, hknown]

/-- What the heading of `slot` binds in a scan for a `search.name` that starts it: all of
`slot.names`, if the scan claims them. -/
theorem boundNames_heading {search : Search} (hslot : slot.Sound search.family search.registered)
    (hvalid : ∀ name ∈ search.registered, Transforms.nameFlaw? name = none)
    (hname : search.name ∈ search.registered)
    (hstart : search.name.toList <+: slot.heading search.family) :
    search.boundNames (slot.heading search.family) =
      .ok (if claims search.name slot.names then some slot.names else none) := by
  have hnamesValid : ∀ name ∈ slot.names, Transforms.nameFlaw? name = none :=
    fun name hmem => hvalid name (hslot.registered name hmem)
  cases hnames : slot.names with
  | nil => exact absurd hnames hslot.names_ne_nil
  | cons first names =>
    cases names with
    | nil =>
      rw [heading, hnames, List.map_singleton, List.intercalate_singleton]
      exact boundNames_name (hnamesValid first (by simp [hnames])) search
    | cons second names =>
      have hclaims : claims search.name slot.names = true := by
        -- the name ends before the first separator, because it has none
        rw [heading, hnames, List.map_cons, List.map_cons, List.intercalate_cons_cons,
          List.append_assoc, List.singleton_append] at hstart
        rw [hnames, claims, List.isPrefixOf_iff_prefix]
        exact (Text.prefix_append_cons_iff
          (notMem_of_isReserved (hvalid _ hname) search.family.isReserved_joint)).1 hstart
      rw [← hnames, boundNames_several hslot hnamesValid hnames, hclaims, if_pos rfl]

end Slot

namespace Search

variable {ι : Type} {slot : Slot ι} {search : Search} {earlier : List Region} {pool : AliasPool}
  {rest : List Char}

/-- Behind its first bracket `slot` is passed over. -/
theorem passed_tail (hslot : slot.Sound search.family search.registered)
    (hvalid : ∀ name ∈ search.registered, Transforms.nameFlaw? name = none) :
    Site.Passed (search.family.openPrefix search.name.toList) search.family.closeTag
      (slot.tail search.family) rest := by
  have hplain : '[' ∉ search.family.sigil :: slot.heading search.family ++ ']' :: slot.literal := by
    have hheading : '[' ∉ slot.heading search.family :=
      Slot.notMem_heading (fun name hmem => hvalid name (hslot.registered name hmem)) (by decide)
        search.family.ne_joint_of_bracket.1
    simp [search.family.sigil_ne_bracket.1, hheading, hslot.literal]
  have hend : '[' ∉ [search.family.sigil, 'e', 'n', 'd', ']'] := by
    simp [search.family.sigil_ne_bracket.1]
  refine Site.Passed.append ((inert_of_notMem _ hplain).passed _ _ _) ?_
  -- the bracket of the close tag opens nothing
  rw [Family.closeTag, ← List.singleton_append]
  refine Site.Passed.append (Site.passed_singleton (.inr ?_))
    ((inert_of_notMem _ hend).passed _ _ _)
  rw [List.isPrefixOf_iff_prefix]
  exact List.prefix_append _ _

/-- A scan passes over a `slot` that `search.name` does not bind. -/
theorem scan_markup_of_not_claims (hslot : slot.Sound search.family search.registered)
    (hvalid : ∀ name ∈ search.registered, Transforms.nameFlaw? name = none)
    (hname : search.name ∈ search.registered) (hclaims : claims search.name slot.names = false) :
    search.scan earlier pool (slot.markup search.family ++ rest) =
      (search.scan earlier pool rest).map (·.behind (slot.markup search.family)) := by
  have hnamesValid : ∀ name ∈ slot.names, Transforms.nameFlaw? name = none :=
    fun name hmem => hvalid name (hslot.registered name hmem)
  have hpassed : Site.Passed (search.family.openPrefix search.name.toList)
      search.family.closeTag (slot.tail search.family) rest := passed_tail hslot hvalid
  by_cases hstart : search.name.toList <+: slot.heading search.family
  · -- the name starts the heading: the region is looked at, and only its bracket is passed over
    have hlocate := Slot.locate_markup (hvalid _ hname) hnamesValid hslot.literal hstart rest
    rw [scan_of_site search earlier pool hlocate, Slot.boundNames_heading hslot hvalid hname hstart,
      hclaims, if_neg Bool.false_ne_true]
    simp only [scan_append search earlier pool hpassed]
    generalize search.scan earlier pool rest = outcome
    cases outcome <;> simp [Except.map, Scanned.behind_behind, Slot.markup_eq_cons]
  · -- no open tag for the name starts here
    have hopen : (search.family.openPrefix search.name.toList).isPrefixOf
        (slot.markup search.family ++ rest) = false := by
      rw [← Bool.not_eq_true, List.isPrefixOf_iff_prefix,
        Slot.openPrefix_prefix_markup (notMem_of_isReserved (hvalid _ hname) (by decide))]
      exact hstart
    refine scan_append search earlier pool ?_
    rw [Slot.markup_eq_cons, ← List.singleton_append]
    exact Site.Passed.append (Site.passed_singleton (.inl hopen)) hpassed

/-- A scan puts `aliasName` in the place of a `slot` that `search.name` binds, unless one of its
names is bound `earlier`. -/
theorem scan_markup_of_claims {aliasName : String} {pool' : AliasPool}
    (hslot : slot.Sound search.family search.registered)
    (hvalid : ∀ name ∈ search.registered, Transforms.nameFlaw? name = none)
    (hname : search.name ∈ search.registered) (hclaims : claims search.name slot.names = true)
    (hclash : search.clash? slot.names earlier = none)
    (hfresh : pool.fresh? search.avoid = some (aliasName, pool')) :
    search.scan earlier pool (slot.markup search.family ++ rest) =
      (search.scan (earlier ++ [slot.region search.family aliasName]) pool' rest).map
        (·.withRegion [] (slot.region search.family aliasName)) := by
  have hnamesValid : ∀ name ∈ slot.names, Transforms.nameFlaw? name = none :=
    fun name hmem => hvalid name (hslot.registered name hmem)
  have hstart : search.name.toList <+: slot.heading search.family :=
    Slot.prefix_heading_of_claims hclaims
  have hlocate := Slot.locate_markup (hvalid _ hname) hnamesValid hslot.literal hstart rest
  rw [scan_of_site search earlier pool hlocate, Slot.boundNames_heading hslot hvalid hname hstart,
    hclaims, if_pos rfl]
  simp only [hclash, hfresh]
  rfl

end Search

end Stencil
