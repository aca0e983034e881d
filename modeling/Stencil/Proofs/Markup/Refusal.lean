import Stencil.Engine
import Stencil.Proofs.Markup.Distinct
import Stencil.Proofs.Transform.Elements

/-!
# Regions that are refused

A scan stops at a region that it refuses: because its transform is bound already where it may bind
one region only, or because no alias is drawn for it. So in lockstep and cross mode a document in
which a name binds two regions is not read. The names are looked for one after the other, each from
the start of the text; so the name that is reported is the first in the list, wherever its regions
stand.

Main definitions:

* `Refused`: why a region is refused.
* `Document.boundBy`: the regions that a name binds.

Main statements:

* `scan_parts_of_refused`, `scanNames_parts_of_refused`: scans stop at the first region that is
  refused.
* `parse_of_refused`: so does the reading of a document.
* `claimOrder_eq_of_find?`: the first name that binds two regions binds the second of them right
  behind the first, and all regions before them have names of their own.
* `bound_once_or_refused`: one operation for each transform, in the order of the names, and an error
  if some name binds two regions.
-/

namespace Stencil

variable {ι : Type}

/-! ### Scans that stop -/

/-- Why a region with some names is refused, `bound` being the names that are bound already. -/
inductive Refused (family : Family) (avoid : List Char) (bound : List String) (pool : AliasPool)
    (names : List String) : SetupError → Prop where
  /-- A name is bound already, in a family in which it may bind one region only. -/
  | duplicate {name : String} (once : family.bindsOnce = true)
      (first : names.find? bound.contains = some name) :
      Refused family avoid bound pool names (.duplicateBinding family name)
  /-- No alias is drawn. -/
  | exhausted (new : family.bindsOnce = true → names.find? bound.contains = none)
      (fails : pool.fresh? avoid = none) :
      Refused family avoid bound pool names .noFreshAlias

namespace Search

variable {search : Search} {earlier : List Region} {pool pool' : AliasPool} {slot : Slot ι}
  {error : SetupError}

/-- A scan stops with `error` at a `slot` that `search.name` binds and that is refused. -/
theorem scan_markup_of_refused (hslot : slot.Sound search.family search.registered)
    (hvalid : ∀ name ∈ search.registered, Transforms.nameFlaw? name = none)
    (hname : search.name ∈ search.registered) (hclaims : claims search.name slot.names = true)
    (hrefused : Refused search.family search.avoid (Region.bindings earlier) pool slot.names error)
    (rest : List Char) :
    search.scan earlier pool (slot.markup search.family ++ rest) = .error error := by
  have hnamesValid : ∀ name ∈ slot.names, Transforms.nameFlaw? name = none :=
    fun name hmem => hvalid name (hslot.registered name hmem)
  have hstart : search.name.toList <+: slot.heading search.family :=
    Slot.prefix_heading_of_claims hclaims
  have hlocate := Slot.locate_markup (hvalid _ hname) hnamesValid hslot.literal hstart rest
  rw [scan_of_site search earlier pool hlocate, Slot.boundNames_heading hslot hvalid hname hstart,
    hclaims, if_pos rfl]
  simp only [clash?_eq]
  cases hrefused with
  | duplicate once first => rw [if_pos once, first]
  | exhausted new fails =>
    -- no name is bound a second time, so an alias is asked for
    have hclash : (if search.family.bindsOnce then
        slot.names.find? (Region.bindings earlier).contains else none) = none := by
      split
      · rename_i honce
        exact new honce
      · rfl
    rw [hclash, fails]

end Search

section Scans

variable {family : Family} {registered : List String} {σ : ι → String} {settled : Slot ι → Bool}
  {parts : List (Inline ι)} {bound more : List (Slot ι)} {slot : Slot ι} {earlier : List Region}
  {pool pool' : AliasPool} {error : SetupError}

/-- The parts `front` before `slot`, which `name` claims, hold the regions of `bound`, which it
claims before. -/
theorem exists_parts_of_claimed {name : String}
    (h : (pending settled parts).filter (fun slot => claims name slot.names) =
      bound ++ slot :: more) :
    ∃ front back, parts = front ++ .slot slot :: back ∧
      (pending settled front).filter (fun slot => claims name slot.names) = bound ∧
      settled slot = false ∧ claims name slot.names = true := by
  -- the claimed regions are the parts that pass two filters
  have hclaimed : ∀ parts : List (Inline ι),
      (pending settled parts).filter (fun slot => claims name slot.names) =
        parts.filterMap fun part => (part.slot?.filter fun slot => !settled slot).filter
          fun slot => claims name slot.names := fun parts => by
    rw [pending, List.filter_filterMap, List.filter_filterMap]
  rw [hclaimed, List.filterMap_eq_append_iff] at h
  obtain ⟨front, rest, rfl, hfront, hrest⟩ := h
  obtain ⟨passed, part, back, rfl, hpassed, hpart, -⟩ := List.filterMap_eq_cons_iff.1 hrest
  obtain ⟨hpart, hclaims⟩ := Option.filter_eq_some_iff.1 hpart
  obtain ⟨hpart, hsettled⟩ := Option.filter_eq_some_iff.1 hpart
  cases part with
  | text chars => exact absurd hpart (by simp [Inline.slot?])
  | slot region =>
    simp only [Inline.slot?, Option.some.injEq] at hpart
    subst hpart
    refine ⟨front ++ passed, back, by rw [List.append_assoc], ?_, by simpa using hsettled, hclaims⟩
    rw [hclaimed, List.filterMap_append, hfront, List.filterMap_eq_nil_iff.2 hpassed,
      List.append_nil]

/-- The names that are bound when the regions of `bound` have been found behind those found
`earlier`. -/
theorem bindings_append_regions (family : Family) (σ : ι → String) (earlier : List Region)
    (bound : List (Slot ι)) :
    Region.bindings (earlier ++ bound.map fun slot => slot.region family (σ slot.key)) =
      Region.bindings earlier ++ bound.flatMap (·.names) := by
  rw [Region.bindings_append, Region.bindings, Region.bindings, List.flatMap_map]
  rfl

/-- A scan binds the regions of `bound` before `slot`, the first one that is refused, and stops
there. -/
theorem scan_parts_of_refused {search : Search}
    (hread : Readable search.family search.registered σ parts)
    (hname : search.name ∈ search.registered)
    (hclaimed : (pending settled parts).filter (fun slot => claims search.name slot.names) =
      bound ++ slot :: more)
    (honce : BoundOnce search.family earlier bound)
    (hdraws : AliasPool.Draws search.avoid pool (bound.map fun slot => σ slot.key) pool')
    (hrefused : Refused search.family search.avoid
      (Region.bindings earlier ++ bound.flatMap (·.names)) pool' slot.names error) :
    search.scan earlier pool (parts.flatMap (Inline.partly search.family settled σ)) =
      .error error := by
  obtain ⟨front, back, rfl, hfront, hsettled, hclaims⟩ := exists_parts_of_claimed hclaimed
  have hslot : slot.Sound search.family search.registered :=
    hread.slots slot (by simp [Inline.slot?])
  rw [← bindings_append_regions search.family σ] at hrefused
  rw [List.flatMap_append, scan_parts_append (hread.of_subset (List.subset_append_left _ _)) hname
      hfront honce hdraws,
    List.flatMap_cons, Inline.partly, hsettled, if_neg Bool.false_ne_true,
    Search.scan_markup_of_refused hslot hread.valid hname hclaims hrefused]
  rfl

/-- Scans for one of `names` after the other bind the regions of `bound` before `slot`, the first
one that is refused, and stop there. -/
theorem scanNames_parts_of_refused {avoid : List Char} {names : List String}
    (hread : Readable family registered σ parts)
    (hnames : ∀ name ∈ names, name ∈ registered)
    (hclaimed : claimOrder Slot.names names (pending settled parts) = bound ++ slot :: more)
    (honce : BoundOnce family earlier bound)
    (hdraws : AliasPool.Draws avoid pool (bound.map fun slot => σ slot.key) pool')
    (hrefused : Refused family avoid (Region.bindings earlier ++ bound.flatMap (·.names)) pool'
      slot.names error) :
    Template.scanNames family registered avoid names
        ⟨parts.flatMap (Inline.partly family settled σ), earlier, pool⟩ = .error error := by
  -- along the names; either the region that is refused is one of the first name, or it is behind
  -- all regions of this name
  induction names generalizing settled earlier pool bound with
  | nil => exact absurd hclaimed (by simp [claimOrder])
  | cons name names ih =>
    have hname := hnames name List.mem_cons_self
    have hlater : ∀ later : List (Slot ι),
        bound = (pending settled parts).filter (fun slot => claims name slot.names) ++ later →
        claimOrder Slot.names names
            ((pending settled parts).filter fun slot => !claims name slot.names) =
          later ++ slot :: more →
        Template.scanNames family registered avoid (name :: names)
          ⟨parts.flatMap (Inline.partly family settled σ), earlier, pool⟩ = .error error := by
      intro later hbound horder
      subst hbound
      rw [List.map_append, AliasPool.Draws.append_iff] at hdraws
      obtain ⟨next, hround, hrest⟩ := hdraws
      rw [List.flatMap_append, ← List.append_assoc, ← bindings_append_regions family σ] at hrefused
      rw [scanNames_cons_parts hread hname honce.left hround]
      exact ih (fun other hother => hnames other (List.mem_cons_of_mem _ hother))
        ((pending_or settled name parts).symm ▸ horder) (honce.right σ) hrest hrefused
    rw [claimOrder, List.append_eq_append_iff] at hclaimed
    rcases hclaimed with ⟨later, hbound, horder⟩ | ⟨rest, hfirst, hrest⟩
    · exact hlater later hbound horder
    · cases rest with
      | nil => exact hlater [] (by simpa using hfirst.symm) hrest.symm
      | cons other rest =>
        simp only [List.cons_append, List.cons.injEq] at hrest
        obtain ⟨rfl, -⟩ := hrest
        have hscan : Search.scan ⟨family, name, registered, avoid⟩ earlier pool
            (parts.flatMap (Inline.partly family settled σ)) = .error error :=
          scan_parts_of_refused hread hname hfirst honce hdraws hrefused
        rw [Template.scanNames]
        simp only [hscan]

end Scans

/-! ### The first name that binds two regions -/

section Singles

variable {α : Type} {listed : α → List String} {names : List String} {regions : List α}
  {name : String}

/-- If no heading lists several names, a `region` that `name` claims lists this name only. -/
theorem eq_singleton_of_claims (hsingle : ∀ region ∈ regions, (listed region).length = 1)
    {region : α} (h : region ∈ regions.filter fun region => claims name (listed region)) :
    listed region = [name] := by
  obtain ⟨hmem, hclaims⟩ := List.mem_filter.1 h
  obtain ⟨only, honly⟩ := List.length_eq_one_iff.1 (hsingle region hmem)
  rw [honly, claims, beq_iff_eq] at hclaims
  rw [honly, hclaims]

/-- If no heading lists several names, a scan for `name` binds this name as often as it claims a
region. -/
theorem flatMap_filter_claims (hsingle : ∀ region ∈ regions, (listed region).length = 1) :
    (regions.filter fun region => claims name (listed region)).flatMap listed =
      List.replicate (regions.filter fun region => claims name (listed region)).length name := by
  rw [← List.map_const', List.map_eq_flatMap]
  exact List.flatMap_congr fun region hregion => eq_singleton_of_claims hsingle hregion

/-- A `name` that is bound is one of `names`, and it makes up the heading of a `region`. -/
theorem mem_flatMap_claimOrder (hsingle : ∀ region ∈ regions, (listed region).length = 1)
    (h : name ∈ (claimOrder listed names regions).flatMap listed) :
    name ∈ names ∧ ∃ region ∈ regions, listed region = [name] := by
  obtain ⟨region, hregion, hname⟩ := List.mem_flatMap.1 h
  obtain ⟨hmem, other, hother, hclaims⟩ := mem_claimOrder listed hregion
  have heq := eq_singleton_of_claims hsingle (List.mem_filter.2 ⟨hmem, hclaims⟩)
  rw [heq, List.mem_singleton] at hname
  exact ⟨hname ▸ hother, region, hmem, hname ▸ heq⟩

/-- If each of `names` binds one region at most, no name is bound twice. -/
theorem nodup_claimOrder (hsingle : ∀ region ∈ regions, (listed region).length = 1)
    (honce : ∀ name ∈ names,
      (regions.filter fun region => claims name (listed region)).length ≤ 1) :
    ((claimOrder listed names regions).flatMap listed).Nodup := by
  induction names generalizing regions with
  | nil => exact List.nodup_nil
  | cons name names ih =>
    have hrest : (regions.filter fun region => !claims name (listed region)).Sublist regions :=
      List.filter_sublist
    have hsingle' : ∀ region ∈ regions.filter fun region => !claims name (listed region),
        (listed region).length = 1 := fun region hregion =>
      hsingle region (List.mem_filter.1 hregion).1
    rw [claimOrder, List.flatMap_append, flatMap_filter_claims hsingle, List.nodup_append]
    refine ⟨List.nodup_replicate.2 (honce name List.mem_cons_self),
      ih hsingle' fun other hother => ?_, ?_⟩
    · exact Nat.le_trans (hrest.filter _).length_le (honce other (List.mem_cons_of_mem _ hother))
    · -- the regions of the first name are left out behind it
      rintro first hfirst other hother rfl
      obtain rfl := List.eq_of_mem_replicate hfirst
      obtain ⟨-, region, hregion, hlisted⟩ := mem_flatMap_claimOrder hsingle' hother
      have hnot := (List.mem_filter.1 hregion).2
      rw [hlisted, claims_head] at hnot
      exact absurd hnot (by decide)

/-- Scans for `names` leave the regions of a `name` that is not among them. -/
theorem filter_claims_of_notMem (hsingle : ∀ region ∈ regions, (listed region).length = 1)
    (hname : name ∉ names) :
    ((regions.filter fun region => !names.any fun other => claims other (listed region)).filter
      fun region => claims name (listed region)) =
        regions.filter fun region => claims name (listed region) := by
  rw [List.filter_filter]
  refine List.filter_congr fun region hregion => ?_
  by_cases hclaims : claims name (listed region) = true
  · have hlisted := eq_singleton_of_claims hsingle (List.mem_filter.2 ⟨hregion, hclaims⟩)
    -- a region with one name is claimed by this name only
    have hother : (names.any fun other => claims other (listed region)) = false := by
      rw [hlisted, List.any_eq_false]
      intro other hmem hclaims
      rw [claims, beq_iff_eq] at hclaims
      exact hname (hclaims ▸ hmem)
    rw [hother]
    simp
  · simp [hclaims]

/-- The first `name` that binds two regions binds the second of them, `region`, behind those of
`bound`, which has the first one and binds no name twice. -/
theorem claimOrder_eq_of_find? (hsingle : ∀ region ∈ regions, (listed region).length = 1)
    (hfind : names.find? (fun name =>
      1 < (regions.filter fun region => claims name (listed region)).length) = some name) :
    ∃ bound region more, claimOrder listed names regions = bound ++ region :: more ∧
      listed region = [name] ∧ (bound.flatMap listed).Nodup ∧ name ∈ bound.flatMap listed := by
  obtain ⟨hmany, front, back, rfl, hfront⟩ := List.find?_eq_some_iff_append.1 hfind
  have hnew : name ∉ front := fun hmem => by
    have hnot := hfront name hmem
    rw [hmany] at hnot
    exact absurd hnot (by decide)
  have hlisted : ∀ region ∈ regions.filter fun region => claims name (listed region),
      listed region = [name] := fun region hregion => eq_singleton_of_claims hsingle hregion
  rw [claimOrder_append, claimOrder, filter_claims_of_notMem hsingle hnew]
  rw [decide_eq_true_eq] at hmany
  -- the first two of its regions
  generalize (regions.filter fun region => claims name (listed region)) = several at hmany hlisted
  obtain ⟨first, several, rfl⟩ := List.exists_cons_of_length_pos (Nat.zero_lt_of_lt hmany)
  obtain ⟨second, more, rfl⟩ := List.exists_cons_of_length_pos (Nat.lt_of_succ_lt_succ hmany)
  have hfirst : listed first = [name] := hlisted first List.mem_cons_self
  refine ⟨claimOrder listed front regions ++ [first], second, _,
    (List.append_assoc _ [first] _).symm,
    hlisted second (List.mem_cons_of_mem _ List.mem_cons_self), ?_, ?_⟩
  · rw [List.flatMap_append, List.flatMap_singleton, hfirst, List.nodup_append]
    refine ⟨nodup_claimOrder hsingle fun other hmem => ?_, List.pairwise_singleton _ _, ?_⟩
    · simpa using hfront other hmem
    · rintro bound hbound _ hname rfl
      rw [List.mem_singleton.1 hname] at hbound
      exact hnew (mem_flatMap_claimOrder hsingle hbound).1
  · rw [List.flatMap_append, List.flatMap_singleton, hfirst]
    exact List.mem_append_right _ (List.mem_singleton_self name)

end Singles

/-! ### Documents that are refused -/

namespace Document

variable {family : Family} {names : TransformNames} {doc : Document ι} {pool pool' : AliasPool}
  {error : SetupError}

/-- The iterative regions of `doc` that `name` binds. -/
def boundBy (name : String) (doc : Document ι) : List (Slot ι) :=
  doc.slots.filter fun slot => name ∈ slot.names

/-- The reading of `doc` stops at `slot`, the first iterative region that is refused. -/
theorem parse_of_refused (hdoc : doc.Legible family names) (hkeys : doc.keys.Nodup)
    {bound more : List (Slot ι)} {slot : Slot ι} {aliases : List String}
    (horder : doc.slotOrder names = bound ++ slot :: more)
    (honce : (bound.flatMap (·.names)).Nodup)
    (hdraws : AliasPool.Draws (doc.markup family) pool aliases pool')
    (hlength : aliases.length = bound.length)
    (hrefused : Refused family (doc.markup family) (bound.flatMap (·.names)) pool' slot.names
      error) :
    Template.parse (String.ofList (doc.markup family)) names pool = .error error := by
  have hperm := hdoc.perm_slotOrder
  -- the regions that are bound have the aliases that are drawn, and the others get none
  obtain ⟨σ, hσ⟩ : ∃ σ : ι → String, ((doc.slotOrder names).map (·.key)).map σ =
      aliases ++ List.replicate (more.length + 1) "" := by
    refine exists_map_eq (((hperm.map _).nodup_iff).2 (List.nodup_append.1 hkeys).1) ?_
    rw [horder]
    simp [hlength]
  have hplain : ∀ slot ∈ doc.slots, '[' ∉ (σ slot.key).toList := by
    intro slot hslot
    have hmem : σ slot.key ∈ aliases ++ List.replicate (more.length + 1) "" :=
      hσ ▸ List.mem_map_of_mem (List.mem_map_of_mem ((hperm.mem_iff).2 hslot))
    rcases List.mem_append.1 hmem with hdrawn | hnone
    · exact hdraws.notMem_of_notMem_letters hdrawn (by decide)
    · rw [List.eq_of_mem_replicate hnone]
      exact List.not_mem_nil
  have hbound : bound.map (fun slot => σ slot.key) = aliases := by
    rw [horder, List.map_append, List.map_append, List.map_map] at hσ
    exact (List.append_inj hσ (by simp [hlength])).1
  have hclaimed : claimOrder Slot.names names.iterative (pending (fun _ => false) doc.flat) =
      bound ++ slot :: more := by
    rw [← horder, slotOrder, pending, filterMap_slot?_flat]
    simp
  have hslots : doc.slots ≠ [] := fun hnil => by
    rw [hnil, horder] at hperm
    exact absurd hperm.length_eq (by simp)
  have hfamily : (doc.mode family).family? = some family := by
    rw [mode, if_neg (by simpa using hslots), Mode.family?_ofFamily hdoc.iterative]
  have hscan : Template.scanNames family names.iterative (doc.markup family) names.iterative
      ⟨doc.flat.flatMap (Inline.partly family (fun _ => false) σ), [], pool⟩ = .error error :=
    scanNames_parts_of_refused (hdoc.readable_flat hplain) (fun name hname => hname) hclaimed
      (fun _ => honce) (hbound ▸ hdraws) hrefused
  rw [flatMap_partly_of_not_settled, flatMap_flat_markup] at hscan
  rw [Template.parse, String.toList_ofList, hdoc.detect_markup]
  simp only [hfamily, Template.scanFamily, hscan]

/-- The error names the first name that is bound a second time, if aliases are drawn for all regions
that are `bound` before. -/
theorem parse_of_bound (hdoc : doc.Legible family names) (hkeys : doc.keys.Nodup)
    (honce : family.bindsOnce = true) {bound more : List (Slot ι)} {slot : Slot ι} {name : String}
    (horder : doc.slotOrder names = bound ++ slot :: more) (hslot : slot.names = [name])
    (hnodup : (bound.flatMap (·.names)).Nodup) (hbound : name ∈ bound.flatMap (·.names)) :
    Template.parse (String.ofList (doc.markup family)) names pool = .error
      (if (pool.freshList (doc.markup family) bound.length).length = bound.length then
        .duplicateBinding family name else .noFreshAlias) := by
  obtain ⟨pool', hdraws, hall | ⟨hlt, hfails⟩⟩ :=
    AliasPool.draws_freshList (doc.markup family) bound.length pool
  · rw [if_pos hall]
    refine parse_of_refused hdoc hkeys horder hnodup hdraws hall (.duplicate honce ?_)
    rw [hslot, List.find?_cons_of_pos (List.contains_iff_mem.2 hbound)]
  · -- the region whose alias is not drawn is refused first
    rw [if_neg (Nat.ne_of_lt hlt)]
    generalize pool.freshList (doc.markup family) bound.length = aliases at hdraws hlt
    obtain ⟨stuck, later, hstuck⟩ := List.exists_cons_of_ne_nil
      (fun hnil => absurd (List.drop_eq_nil_iff.1 hnil) (Nat.not_le.2 hlt))
    have hsplit : bound = bound.take aliases.length ++ stuck :: later := by
      rw [← hstuck, List.take_append_drop]
    rw [hsplit, List.flatMap_append] at hnodup
    rw [hsplit, List.append_assoc, List.cons_append] at horder
    refine parse_of_refused hdoc hkeys horder (List.nodup_append.1 hnodup).1 hdraws ?_
      (.exhausted (fun _ => List.find?_eq_none.2 fun other hother hcontains => ?_) hfails)
    · exact (List.length_take_of_le (Nat.le_of_lt hlt)).symm
    · refine (List.nodup_append.1 hnodup).2.2 other (List.contains_iff_mem.1 hcontains) other ?_ rfl
      exact List.mem_flatMap.2 ⟨stuck, List.mem_cons_self, hother⟩

/-- In a family in which each transform may bind one region only, a document in which some name
binds two is refused. The error names the first such name, if the aliases that are asked for before
are drawn, `draws` of them. -/
theorem parse_of_boundBy (hdoc : doc.Legible family names) (hkeys : doc.keys.Nodup)
    (honce : family.bindsOnce = true) (htwice : ∃ name, 1 < (doc.boundBy name).length) :
    ∃ name, names.iterative.find? (fun name => decide (1 < (doc.boundBy name).length)) = some name ∧
      ∃ draws < doc.slots.length,
        Template.parse (String.ofList (doc.markup family)) names pool = .error
          (if (pool.freshList (doc.markup family) draws).length = draws then
            .duplicateBinding family name else .noFreshAlias) := by
  have hsingle : ∀ slot ∈ doc.slots, slot.names.length = 1 := fun slot hslot =>
    (hdoc.sound_slot hslot).alone (Family.separator?_of_bindsOnce honce)
  have hclaims : ∀ name,
      doc.boundBy name = doc.slots.filter fun slot => claims name slot.names := by
    intro name
    refine List.filter_congr fun slot hslot => ?_
    obtain ⟨only, honly⟩ := List.length_eq_one_iff.1 (hsingle slot hslot)
    rw [honly, claims, Bool.eq_iff_iff, decide_eq_true_iff, List.mem_singleton, beq_iff_eq]
    exact eq_comm
  -- the name that binds two regions is one of the registered names
  obtain ⟨twice, htwice⟩ := htwice
  obtain ⟨slot, slots, hcons⟩ := List.exists_cons_of_length_pos (Nat.zero_lt_of_lt htwice)
  have hslot : slot ∈ doc.boundBy twice := hcons ▸ List.mem_cons_self
  obtain ⟨hmem, hlisted⟩ := List.mem_filter.1 hslot
  have hregistered := (hdoc.sound_slot hmem).registered twice (of_decide_eq_true hlisted)
  have hsome : (names.iterative.find? fun name =>
      decide (1 < (doc.boundBy name).length)).isSome = true :=
    List.find?_isSome.2 ⟨twice, hregistered, decide_eq_true htwice⟩
  obtain ⟨name, hfind⟩ := Option.isSome_iff_exists.1 hsome
  refine ⟨name, hfind, ?_⟩
  simp only [hclaims] at hfind
  obtain ⟨bound, region, more, horder, hregion, hnodup, hbound⟩ :=
    claimOrder_eq_of_find? hsingle hfind
  have hlength := hdoc.perm_slotOrder.length_eq
  rw [slotOrder, horder, List.length_append, List.length_cons] at hlength
  exact ⟨bound.length, by omega, parse_of_bound hdoc hkeys honce horder hregion hnodup hbound⟩

end Document

namespace Template

/-- In lockstep and cross mode the operations of a `template` that is read have a transform each to
themselves, in the order of `names.iterative`; so, if these are the names of a `set` of transforms,
the first digit of a cross product has the least of the names that bind a region. And a document
`doc` in which some name binds two regions is not read: the error names the first `name` that does,
if the aliases that are asked for before its second region, `draws` of them, are drawn, and else it
is that an alias is missing. The keys of `doc` only tell its regions apart; they are not written. -/
theorem bound_once_or_refused (names : TransformNames) (pool : AliasPool) :
    (∀ (source : String) (template : Template) (pool' : AliasPool),
      parse source names pool = .ok (template, pool') →
      template.mode = .lockstep ∨ template.mode = .cross →
        (template.operations.map (·.transform)).Nodup ∧
          (template.operations.map (·.transform)).Sublist names.iterative ∧
          ∀ set : Transforms, names = set.templateNames →
            template.operations.Pairwise fun digit next => digit.transform < next.transform) ∧
      ∀ {ι : Type} (family : Family) (doc : Document ι), family = .lockstep ∨ family = .cross →
        doc.Legible family names → doc.keys.Nodup → (∃ name, 1 < (doc.boundBy name).length) →
          ∃ name,
            names.iterative.find? (fun name => decide (1 < (doc.boundBy name).length)) = some name ∧
            ∃ draws < doc.slots.length,
              parse (String.ofList (doc.markup family)) names pool = .error
                (if (pool.freshList (doc.markup family) draws).length = draws then
                  .duplicateBinding family name else .noFreshAlias) := by
  refine ⟨fun source template pool' hparse hmode => ?_, fun family doc hfamily hdoc hkeys => ?_⟩
  · have hsublist := sublist_transforms_of_parse hparse hmode
    refine ⟨nodup_transforms_of_parse hparse hmode, hsublist, fun set hnames => ?_⟩
    -- the names of a set of transforms ascend
    have hascending : names.iterative.Pairwise (· < ·) := by
      rw [hnames]
      exact List.pairwise_map.2 set.iterative.ascending
    exact List.pairwise_map.1 (hascending.sublist hsublist)
  · have honce : family.bindsOnce = true := by
      rcases hfamily with rfl | rfl <;> rfl
    exact Document.parse_of_boundBy hdoc hkeys honce

end Template

/-- Transforms of which one has a name that starts the name of another. -/
def Transforms.crowd : Transforms :=
  { Transforms.showing [("b", []), ("ab", []), ("a", [])] with
    persistent := Roster.empty.insert "p" ⟨"p", fun _ text => .ok text⟩ }

namespace Document

/-- A document in which two names bind two regions each, one of these inside a persistent region. -/
def crowded : Document Nat where
  blocks :=
    [.inline (.slot ⟨0, ["b"], ['1']⟩),
      .frame ⟨1, ["p"], [.slot ⟨2, ["ab"], ['2']⟩, .text ['y']]⟩,
      .inline (.slot ⟨3, ["a"], ['3']⟩), .inline (.slot ⟨4, ["ab"], ['4']⟩),
      .inline (.text ['x', ']']), .inline (.slot ⟨5, ["b"], ['5']⟩)]

theorem legible_crowded : crowded.Legible .cross Transforms.crowd.templateNames where
  iterative := by decide
  valid := by decide +kernel
  parts := by
    rw [show crowded.parts = [.slot ⟨0, ["b"], ['1']⟩, .slot ⟨2, ["ab"], ['2']⟩, .text ['y'],
      .slot ⟨3, ["a"], ['3']⟩, .slot ⟨4, ["ab"], ['4']⟩, .text ['x', ']'],
      .slot ⟨5, ["b"], ['5']⟩] from rfl]
    simp only [List.forall_mem_cons, Inline.Sound]
    refine ⟨⟨?_, ?_, ?_, ?_⟩, ⟨?_, ?_, ?_, ?_⟩, ?_, ⟨?_, ?_, ?_, ?_⟩, ⟨?_, ?_, ?_, ?_⟩, ?_,
      ⟨?_, ?_, ?_, ?_⟩, by simp⟩
    all_goals decide +kernel
  chains := by decide +kernel

end Document

/-- The operations come in the order of the names, though the regions do not. Of two names that bind
two regions each, the error names the first, though a region of the other one stands before both of
its own. -/
theorem Template.bound_once_or_refused_crowd :
    (∃ (template : Template) (pool' : AliasPool),
      parse "[%b]1[%end][@p][%ab]2[%end][@end]" Transforms.crowd.templateNames
          Document.nestedPool = .ok (template, pool') ∧
        template.operations.map (·.transform) = ["ab", "b"] ∧
        template.operations.Pairwise fun digit next => digit.transform < next.transform) ∧
      parse "[%b]1[%end][@p][%ab]2[%end]y[@end][%a]3[%end][%ab]4[%end]x][%b]5[%end]"
          Transforms.crowd.templateNames Document.nestedPool =
        .error (.duplicateBinding .cross "ab") := by
  obtain ⟨hread, hrefused⟩ :=
    bound_once_or_refused Transforms.crowd.templateNames Document.nestedPool
  constructor
  · have hoperations : (parse "[%b]1[%end][@p][%ab]2[%end][@end]" Transforms.crowd.templateNames
        Document.nestedPool).toOption.map (fun read =>
          (read.1.mode, read.1.operations.map (·.transform))) = some (.cross, ["ab", "b"]) := by
      decide +kernel
    obtain ⟨⟨template, pool'⟩, hparse, heq⟩ := Except.exists_of_toOption_map hoperations
    obtain ⟨hmode, htransforms⟩ := Prod.mk.inj heq
    exact ⟨template, pool', hparse, htransforms,
      (hread _ template pool' hparse (.inr hmode)).2.2 Transforms.crowd rfl⟩
  · have hmarkup : String.ofList (Document.crowded.markup .cross) =
        "[%b]1[%end][@p][%ab]2[%end]y[@end][%a]3[%end][%ab]4[%end]x][%b]5[%end]" := by decide
    obtain ⟨name, hfind, draws, hlt, herror⟩ := hrefused .cross Document.crowded (.inr rfl)
      Document.legible_crowded (by decide) ⟨"b", by decide⟩
    -- aliases can be drawn for all regions, so they can for those before
    have hall : (Document.nestedPool.freshList (Document.crowded.markup .cross)
        Document.crowded.slots.length).length = Document.crowded.slots.length := by
      decide +kernel
    have hdraws := AliasPool.length_freshList_of_le (Nat.le_of_lt hlt) hall
    have hname : Transforms.crowd.templateNames.iterative.find?
        (fun name => decide (1 < (Document.crowded.boundBy name).length)) = some "ab" := by
      decide +kernel
    obtain rfl : name = "ab" := Option.some.inj (hfind.symm.trans hname)
    rw [← hmarkup, herror, if_pos hdraws]

end Stencil
