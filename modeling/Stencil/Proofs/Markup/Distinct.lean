import Stencil.Proofs.Markup.Splice

/-!
# Regions bound once

In lockstep and cross mode a transform may bind one region only. A heading there names a single
transform, and a region is refused if its transform is bound already. So the operations of a
template that is read in one of these modes have a transform each to themselves.

Main statements:

* `nodup_scan`, `nodup_scanNames`: a scan binds no name twice.
* `sublist_scanNames`: names are bound in the order in which they are looked for.
* `nodup_transforms_of_parse`, `sublist_transforms_of_parse`: no two operations share a transform,
  and these come in the order of the names.
* `registered_of_parse`: persistent regions name transforms that are registered.
-/

namespace Stencil

/-- The transforms of the operations of `regions` are the names that these bind. -/
theorem Region.map_transform_operations (regions : List Region) :
    (regions.flatMap operations).map (·.transform) = bindings regions := by
  simp [bindings, List.map_flatMap, operations, Function.comp_def]

/-- A `family` that binds a transform once has no headings that name several. -/
theorem Family.separator?_of_bindsOnce {family : Family} (h : family.bindsOnce = true) :
    family.separator? = none := by
  cases family <;> first | rfl | cases h

namespace Search

variable {search : Search} {heading : List Char} {names : List String} {earlier : List Region}

/-- In a family without separators a heading binds `search.name` alone. -/
theorem eq_singleton_of_boundNames (hseparator : search.family.separator? = none)
    (h : search.boundNames heading = .ok (some names)) : names = [search.name] := by
  rw [boundNames, hseparator] at h
  simp only [Option.filter_none] at h
  split at h <;> cases h
  rfl

/-- If `names` do not clash with the regions found `earlier`, none of them was bound there. -/
theorem notMem_of_clash? (honce : search.family.bindsOnce = true)
    (h : search.clash? names earlier = none) :
    ∀ name ∈ names, name ∉ Region.bindings earlier := by
  rw [clash?_eq, if_pos honce, List.find?_eq_none] at h
  exact fun name hname hbound => h name hname (List.contains_iff_mem.2 hbound)

/-- A scan binds no name twice, nor one that was bound `earlier`. -/
theorem nodup_scan (search : Search) (honce : search.family.bindsOnce = true)
    {pool : AliasPool} {text : List Char} {scanned : Scanned}
    (h : search.scan earlier pool text = .ok scanned)
    (hearlier : (Region.bindings earlier).Nodup) :
    (Region.bindings (earlier ++ scanned.regions)).Nodup := by
  fun_induction Search.scan search earlier pool text generalizing scanned with
  | case1 => cases h
  | case2 earlier pool text hsite =>
    cases h
    rwa [List.append_nil]
  | case3 => cases h
  | case4 earlier pool text site hsite hbound _ ih =>
    obtain ⟨found, hfound, rfl⟩ := Except.exists_of_map_eq_ok h
    have hrest := ih hfound hearlier
    exact hrest
  | case5 => cases h
  | case6 => cases h
  | case7 earlier pool text site hsite names hbound hclash aliasName next hfresh =>
    rename_i ih
    obtain ⟨found, hfound, rfl⟩ := Except.exists_of_map_eq_ok h
    have hnames := eq_singleton_of_boundNames (Family.separator?_of_bindsOnce honce) hbound
    subst hnames
    have hnew := notMem_of_clash? honce hclash search.name (List.mem_singleton_self _)
    -- the region that is found joins those bound before it
    have hjoined := ih hfound (by
      rw [Region.bindings_append, List.nodup_append]
      refine ⟨hearlier, List.pairwise_singleton _ _, fun bound hbefore name hname heq => ?_⟩
      rw [Region.bindings, List.flatMap_singleton, List.mem_singleton] at hname
      exact hnew (hname ▸ heq ▸ hbefore))
    rwa [List.append_assoc] at hjoined

/-- A scan in a family without separators binds `search.name` once for each region, and no other
name. -/
theorem bindings_scan (search : Search) (hseparator : search.family.separator? = none)
    {pool : AliasPool} {text : List Char} {scanned : Scanned}
    (h : search.scan earlier pool text = .ok scanned) :
    Region.bindings scanned.regions = List.replicate scanned.regions.length search.name := by
  fun_induction Search.scan search earlier pool text generalizing scanned with
  | case1 => cases h
  | case2 =>
    cases h
    rfl
  | case3 => cases h
  | case4 earlier pool text site hsite hbound _ ih =>
    obtain ⟨found, hfound, rfl⟩ := Except.exists_of_map_eq_ok h
    -- a tag that is passed over binds nothing
    have hrest := ih hfound
    exact hrest
  | case5 => cases h
  | case6 => cases h
  | case7 earlier pool text site hsite names hbound hclash aliasName next hfresh =>
    rename_i ih
    obtain ⟨found, hfound, rfl⟩ := Except.exists_of_map_eq_ok h
    -- without a separator a region has one name
    have hnames := eq_singleton_of_boundNames hseparator hbound
    subst hnames
    have hrest := ih hfound
    rw [Scanned.withRegion, Region.bindings, List.flatMap_cons, ← Region.bindings, hrest,
      List.length_cons, List.replicate_succ, List.singleton_append]

end Search

namespace Template

variable {family : Family} {registered names : List String} {avoid : List Char}
  {start found : Scanned}

/-- Scans for the `names` one after the other bind no name twice. -/
theorem nodup_scanNames (family : Family) (honce : family.bindsOnce = true)
    (h : scanNames family registered avoid names start = .ok found)
    (hstart : (Region.bindings start.regions).Nodup) : (Region.bindings found.regions).Nodup := by
  induction names generalizing start with
  | nil =>
    cases h
    exact hstart
  | cons name names ih =>
    rw [scanNames] at h
    split at h
    · cases h
    · rename_i scanned hscanned
      exact ih h (Search.nodup_scan ⟨family, name, registered, avoid⟩ honce hscanned hstart)

/-- Scans for the `names` one after the other bind some of them, in their order, each at most
once. -/
theorem sublist_scanNames (family : Family) (honce : family.bindsOnce = true)
    (h : scanNames family registered avoid names start = .ok found)
    (hstart : (Region.bindings start.regions).Nodup) :
    ∃ bound, Region.bindings found.regions = Region.bindings start.regions ++ bound ∧
      bound.Sublist names := by
  induction names generalizing start with
  | nil =>
    cases h
    exact ⟨[], (List.append_nil _).symm, .slnil⟩
  | cons name names ih =>
    rw [scanNames] at h
    split at h
    · cases h
    · rename_i scanned hscanned
      have hnodup := Search.nodup_scan ⟨family, name, registered, avoid⟩ honce hscanned hstart
      obtain ⟨bound, hbound, hsublist⟩ := ih h hnodup
      rw [Region.bindings_append] at hnodup hbound
      have hname := Search.bindings_scan ⟨family, name, registered, avoid⟩
        (Family.separator?_of_bindsOnce honce) hscanned
      -- the scan binds its name, and no name is bound twice
      have hone : (Region.bindings scanned.regions).Sublist [name] := by
        have hlength := (List.nodup_append.1 hnodup).2.1
        rw [hname, List.nodup_replicate] at hlength
        rw [hname]
        exact (List.replicate_sublist_replicate name).2 hlength
      exact ⟨Region.bindings scanned.regions ++ bound, by rw [hbound, List.append_assoc],
        hone.append hsublist⟩

variable {source : String} {listed : TransformNames} {pool pool' : AliasPool} {template : Template}

/-- In lockstep and cross mode no two operations of a `template` that is read share a transform. -/
theorem nodup_transforms_of_parse (h : parse source listed pool = .ok (template, pool'))
    (hmode : template.mode = .lockstep ∨ template.mode = .cross) :
    (template.operations.map (·.transform)).Nodup := by
  obtain ⟨varying, -, -, hvarying, -, -, hoperations, -, -⟩ := exists_of_parse h
  rw [hoperations, Region.map_transform_operations]
  rcases hmode with hmode | hmode
  · rw [hmode] at hvarying
    exact nodup_scanNames .lockstep rfl hvarying List.nodup_nil
  · rw [hmode] at hvarying
    exact nodup_scanNames .cross rfl hvarying List.nodup_nil

/-- In lockstep and cross mode the transforms of the operations of a `template` that is read come in
the order of `listed.iterative`. -/
theorem sublist_transforms_of_parse (h : parse source listed pool = .ok (template, pool'))
    (hmode : template.mode = .lockstep ∨ template.mode = .cross) :
    (template.operations.map (·.transform)).Sublist listed.iterative := by
  obtain ⟨varying, -, -, hvarying, -, -, hoperations, -, -⟩ := exists_of_parse h
  rw [hoperations, Region.map_transform_operations]
  have hscan : ∃ family : Family, family.bindsOnce = true ∧
      scanNames family listed.iterative source.toList listed.iterative ⟨source.toList, [], pool⟩ =
        .ok varying := by
    rcases hmode with hmode | hmode
    · rw [hmode] at hvarying
      exact ⟨.lockstep, rfl, hvarying⟩
    · rw [hmode] at hvarying
      exact ⟨.cross, rfl, hvarying⟩
  obtain ⟨family, honce, hscan⟩ := hscan
  obtain ⟨bound, hbound, hsublist⟩ := sublist_scanNames family honce hscan List.nodup_nil
  rw [hbound]
  exact hsublist

/-- A `template` without a mode has no operations. -/
theorem operations_of_parse_none (h : parse source listed pool = .ok (template, pool'))
    (hmode : template.mode = .none) : template.operations = [] := by
  obtain ⟨varying, -, -, hvarying, -, -, hoperations, -, -⟩ := exists_of_parse h
  rw [hmode] at hvarying
  cases hvarying
  exact hoperations

/-- The chains of a `template` that is read consist of names in `listed.persistent`. -/
theorem registered_of_parse (h : parse source listed pool = .ok (template, pool')) :
    ∀ op ∈ template.persistent, ∀ name ∈ op.chain, name ∈ listed.persistent := by
  obtain ⟨varying, lasting, -, -, hlasting, -, -, hpersistent, -⟩ := exists_of_parse h
  obtain ⟨splices, -, hregions, -, hsound⟩ := traced_of_scanFamily hlasting
  rw [hpersistent, hregions]
  intro op hop name hname
  simp only [List.map_map, List.mem_map, Function.comp_apply] at hop
  obtain ⟨splice, hsplice, rfl⟩ := hop
  exact (hsound splice hsplice).2.names name hname

end Template

end Stencil
