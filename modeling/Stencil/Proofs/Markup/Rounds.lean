import Mathlib.Data.List.Basic
import Stencil.Proofs.Markup.Draws
import Stencil.Proofs.Markup.Heading
import Stencil.Template

/-!
# The regions of a text, name by name

A text is scanned for one registered name after the other. Each scan puts aliases in the place of
the regions that its name binds and leaves the others as they are written, so that between two
scans some of the regions are settled and the others are not. At the end all regions are settled:
the first name of each heading binds it at the latest.

Main definitions:

* `claimOrder`: the regions in the order in which they are bound.
* `Inline.partly`: a part of a text in which some regions are settled.
* `Readable`: the parts that can be read back.

Main statements:

* `claimOrder_perm`: each region is bound once.
* `scan_parts`: what one scan does.
* `scanNames_parts`: what scans for several names do.
* `scanFamily_parts`: all regions of a family are bound.
-/

namespace Stencil

/-! ### The order in which regions are bound -/

section ClaimOrder

variable {α : Type} (listed : α → List String)

/-- The `regions` in the order in which scans for one name after the other bind them. -/
def claimOrder : List String → List α → List α
  | [], _ => []
  | name :: names, regions =>
    regions.filter (fun region => claims name (listed region)) ++
      claimOrder names (regions.filter fun region => !claims name (listed region))

@[simp]
theorem claimOrder_nil_right (names : List String) : claimOrder listed names [] = [] := by
  induction names with
  | nil => rfl
  | cons name names ih => simp [claimOrder, ih]

/-- Each of `regions` is bound once, if there is one of `names` that binds it. -/
theorem claimOrder_perm {names : List String} {regions : List α}
    (h : ∀ region ∈ regions, ∃ name ∈ names, claims name (listed region) = true) :
    (claimOrder listed names regions).Perm regions := by
  induction names generalizing regions with
  | nil =>
    cases regions with
    | nil => exact .refl _
    | cons region regions => simpa using h region List.mem_cons_self
  | cons name names ih =>
    -- what the first name does not bind is bound by one of the others
    refine (List.Perm.append_left _ (ih fun region hregion => ?_)).trans
      (List.filter_append_perm _ regions)
    obtain ⟨hmem, hnot⟩ := List.mem_filter.1 hregion
    obtain ⟨other, hother, hclaims⟩ := h region hmem
    rcases List.mem_cons.1 hother with rfl | hother
    · simp [hclaims] at hnot
    · exact ⟨other, hother, hclaims⟩

/-- What `names` bind comes before what `more` names behind them bind. -/
theorem claimOrder_append (names more : List String) (regions : List α) :
    claimOrder listed (names ++ more) regions =
      claimOrder listed names regions ++ claimOrder listed more
        (regions.filter fun region => !names.any fun name => claims name (listed region)) := by
  induction names generalizing regions with
  | nil => simp [claimOrder]
  | cons name names ih =>
    rw [List.cons_append, claimOrder, claimOrder, ih, List.append_assoc, List.filter_filter]
    simp only [List.any_cons, Bool.not_or, Bool.and_comm]

/-- Each `region` that is bound is one of `regions`, and one of `names` binds it. -/
theorem mem_claimOrder {names : List String} {regions : List α} {region : α}
    (h : region ∈ claimOrder listed names regions) :
    region ∈ regions ∧ ∃ name ∈ names, claims name (listed region) = true := by
  induction names generalizing regions with
  | nil => exact absurd h List.not_mem_nil
  | cons name names ih =>
    rw [claimOrder, List.mem_append] at h
    rcases h with hfirst | hlater
    · obtain ⟨hregion, hclaims⟩ := List.mem_filter.1 hfirst
      exact ⟨hregion, name, List.mem_cons_self, hclaims⟩
    · obtain ⟨hregion, other, hother, hclaims⟩ := ih hlater
      exact ⟨(List.mem_filter.1 hregion).1, other, List.mem_cons_of_mem _ hother, hclaims⟩

/-- The order depends on what is `listed` only. -/
theorem claimOrder_map {β : Type} (f : β → α) (names : List String) (regions : List β) :
    claimOrder listed names (regions.map f) =
      (claimOrder (fun region => listed (f region)) names regions).map f := by
  induction names generalizing regions with
  | nil => rfl
  | cons name names ih =>
    rw [claimOrder, claimOrder, List.filter_map, List.filter_map, ih, List.map_append]
    rfl

end ClaimOrder

/-! ### Texts in which some regions are settled -/

variable {ι : Type} {family : Family} {registered : List String} {σ : ι → String}
  {settled : Slot ι → Bool} {parts : List (Inline ι)}

/-- A part of a text, with the aliases that `σ` gives in the place of the regions that are
`settled`. -/
def Inline.partly (family : Family) (settled : Slot ι → Bool) (σ : ι → String) :
    Inline ι → List Char
  | .text chars => chars
  | .slot region => if settled region then (σ region.key).toList else region.markup family

/-- The regions among `parts` that are not `settled`. -/
def pending (settled : Slot ι → Bool) (parts : List (Inline ι)) : List (Slot ι) :=
  (parts.filterMap Inline.slot?).filter fun slot => !settled slot

theorem pending_cons_of_settled {slot : Slot ι} (h : settled slot = true) :
    pending settled (.slot slot :: parts) = pending settled parts := by
  simp [pending, Inline.slot?, h]

theorem pending_cons_of_not_settled {slot : Slot ι} (h : ¬ settled slot = true) :
    pending settled (.slot slot :: parts) = slot :: pending settled parts := by
  simp [pending, Inline.slot?, h]

/-- Parts that can be read back: in the texts and aliases no tag of the family starts, and the
headings of the regions list registered names. -/
structure Readable (family : Family) (registered : List String) (σ : ι → String)
    (parts : List (Inline ι)) : Prop where
  /-- The registered names can be written in headings. -/
  valid : ∀ name ∈ registered, Transforms.nameFlaw? name = none
  /-- No tag of the family starts in a text. -/
  texts : ∀ chars, Inline.text chars ∈ parts → Inert family chars
  /-- The regions are sound. -/
  slots : ∀ slot ∈ parts.filterMap Inline.slot?, slot.Sound family registered
  /-- No tag starts in an alias. -/
  aliases : ∀ slot ∈ parts.filterMap Inline.slot?, '[' ∉ (σ slot.key).toList

/-- If `more` parts can be read back, so can some of them. -/
theorem Readable.of_subset {more : List (Inline ι)} (h : Readable family registered σ more)
    (hsubset : parts ⊆ more) : Readable family registered σ parts := by
  have hmem : ∀ slot ∈ parts.filterMap Inline.slot?, slot ∈ more.filterMap Inline.slot? := by
    intro slot hslot
    obtain ⟨part, hpart, hsome⟩ := List.mem_filterMap.1 hslot
    exact List.mem_filterMap.2 ⟨part, hsubset hpart, hsome⟩
  exact ⟨h.valid, fun chars hchars => h.texts chars (hsubset hchars),
    fun slot hslot => h.slots slot (hmem slot hslot),
    fun slot hslot => h.aliases slot (hmem slot hslot)⟩

/-- The `parts` behind the first one can be read back, too. -/
theorem Readable.tail {part : Inline ι} (h : Readable family registered σ (part :: parts)) :
    Readable family registered σ parts :=
  h.of_subset (List.subset_cons_self part parts)

/-- No transform is named twice by the regions found `earlier` and by `slots`, if `family` is one in
which each may bind one region only. -/
def BoundOnce (family : Family) (earlier : List Region) (slots : List (Slot ι)) : Prop :=
  family.bindsOnce = true → (earlier.flatMap (·.names) ++ slots.flatMap (·.names)).Nodup

/-- Where no transform is named twice, `slot` is not refused. -/
theorem BoundOnce.clash?_eq_none {search : Search} {earlier : List Region} {slot : Slot ι}
    {slots : List (Slot ι)} (h : BoundOnce search.family earlier (slot :: slots)) :
    search.clash? slot.names earlier = none := by
  rw [Search.clash?_eq]
  split
  · rename_i hbinds
    refine List.find?_eq_none.2 fun name hname hcontains => ?_
    have hslots : name ∈ (slot :: slots).flatMap (·.names) :=
      List.mem_flatMap.2 ⟨slot, List.mem_cons_self, hname⟩
    exact (List.nodup_append.1 (h hbinds)).2.2 name (List.contains_iff_mem.1 hcontains) name hslots
      rfl
  · rfl

/-- When `slot` is bound, it moves to those found `earlier`. -/
theorem BoundOnce.settle {earlier : List Region} {slot : Slot ι} {slots : List (Slot ι)}
    (h : BoundOnce family earlier (slot :: slots)) (aliasName : String) :
    BoundOnce family (earlier ++ [slot.region family aliasName]) slots := by
  intro hbinds
  simpa [Slot.region] using h hbinds

/-- The regions of `more`, which are bound last, may be left out. -/
theorem BoundOnce.left {earlier : List Region} {slots more : List (Slot ι)}
    (h : BoundOnce family earlier (slots ++ more)) : BoundOnce family earlier slots := by
  intro hbinds
  refine (h hbinds).sublist ((List.Sublist.refl _).append ?_)
  rw [List.flatMap_append]
  exact List.sublist_append_left _ _

/-- The regions of `slots`, which are bound first, move to those found `earlier`. -/
theorem BoundOnce.right {earlier : List Region} {slots more : List (Slot ι)}
    (h : BoundOnce family earlier (slots ++ more)) (σ : ι → String) :
    BoundOnce family (earlier ++ slots.map fun slot => slot.region family (σ slot.key)) more := by
  intro hbinds
  have hnodup := h hbinds
  rw [List.flatMap_append, ← List.append_assoc] at hnodup
  rw [List.flatMap_append, List.flatMap_map]
  exact hnodup

/-- Puts the text `start` and the `regions` that were found before in front of `scanned`. -/
def Scanned.following (start : List Char) (regions : List Region) (scanned : Scanned) : Scanned :=
  { scanned with text := start ++ scanned.text, regions := regions ++ scanned.regions }

/-- What one scan does: it settles the regions in `claimed`, those that `search.name` claims, and
goes on behind `parts`. -/
theorem scan_parts_append {search : Search} {earlier : List Region} {pool pool' : AliasPool}
    {claimed : List (Slot ι)} (hread : Readable search.family search.registered σ parts)
    (hname : search.name ∈ search.registered)
    (hclaimed : (pending settled parts).filter (fun slot => claims search.name slot.names) =
      claimed)
    (honce : BoundOnce search.family earlier claimed)
    (hdraws : AliasPool.Draws search.avoid pool (claimed.map fun slot => σ slot.key) pool')
    (rest : List Char) :
    search.scan earlier pool (parts.flatMap (Inline.partly search.family settled σ) ++ rest) =
      (search.scan (earlier ++ claimed.map fun slot => slot.region search.family (σ slot.key))
          pool' rest).map
        (·.following
          (parts.flatMap (Inline.partly search.family
            (fun slot => settled slot || claims search.name slot.names) σ))
          (claimed.map fun slot => slot.region search.family (σ slot.key))) := by
  -- along the parts, as the scan goes; the regions found and the pool change at bound regions only
  induction parts generalizing earlier pool claimed with
  | nil =>
    obtain rfl : [] = claimed := hclaimed
    cases hdraws
    rw [List.map_nil, List.append_nil]
    cases hrest : search.scan earlier pool' rest <;> simp [hrest, Except.map, Scanned.following]
  | cons part parts ih =>
    rw [List.flatMap_cons, List.flatMap_cons, List.append_assoc]
    cases part with
    | text chars =>
      have hpassed := (hread.texts chars List.mem_cons_self).passed search.name.toList
        search.family.closeTag (parts.flatMap (Inline.partly search.family settled σ) ++ rest)
      rw [Inline.partly, Search.scan_append search earlier pool hpassed,
        ih hread.tail hclaimed honce hdraws]
      generalize search.scan _ pool' rest = outcome
      cases outcome <;> simp [Except.map, Scanned.following, Scanned.behind, Inline.partly]
    | slot region =>
      have hmem : region ∈ (Inline.slot region :: parts).filterMap Inline.slot? := by
        simp [Inline.slot?]
      have hsound := hread.slots region hmem
      have hinert := inert_of_notMem search.family (hread.aliases region hmem)
      rw [Inline.partly, Inline.partly]
      by_cases hsettled : settled region = true
      · rw [pending_cons_of_settled hsettled] at hclaimed
        -- its alias is text
        rw [if_pos hsettled, hsettled, Bool.true_or, if_pos rfl,
          Search.scan_append search earlier pool (hinert.passed _ _ _),
          ih hread.tail hclaimed honce hdraws]
        generalize search.scan _ pool' rest = outcome
        cases outcome <;> simp [Except.map, Scanned.following, Scanned.behind]
      · rw [pending_cons_of_not_settled hsettled] at hclaimed
        rw [if_neg hsettled, Bool.eq_false_iff.2 hsettled, Bool.false_or]
        by_cases hclaims : claims search.name region.names = true
        · have hfilter : (region :: pending settled parts).filter
              (fun slot => claims search.name slot.names) = region ::
                (pending settled parts).filter fun slot => claims search.name slot.names :=
            List.filter_cons_of_pos hclaims
          rw [hfilter] at hclaimed
          subst hclaimed
          -- the next alias is drawn for it
          cases hdraws with
          | cons head tail =>
            rw [Search.scan_markup_of_claims hsound hread.valid hname hclaims
              honce.clash?_eq_none head, ih hread.tail rfl (honce.settle _) tail, if_pos hclaims]
            rw [List.map_cons, List.append_assoc, List.singleton_append]
            generalize search.scan _ pool' rest = outcome
            cases outcome <;>
              simp [Except.map, Scanned.following, Scanned.withRegion, Slot.region]
        · have hfilter : (region :: pending settled parts).filter
              (fun slot => claims search.name slot.names) =
                (pending settled parts).filter fun slot => claims search.name slot.names :=
            List.filter_cons_of_neg hclaims
          rw [hfilter] at hclaimed
          -- it stays as it is written
          rw [Search.scan_markup_of_not_claims hsound hread.valid hname
            (Bool.eq_false_iff.2 hclaims), ih hread.tail hclaimed honce hdraws, if_neg hclaims]
          generalize search.scan _ pool' rest = outcome
          cases outcome <;> simp [Except.map, Scanned.following, Scanned.behind]

/-- What one scan of the whole text of `parts` does. -/
theorem scan_parts {search : Search} {earlier : List Region} {pool pool' : AliasPool}
    {claimed : List (Slot ι)} (hread : Readable search.family search.registered σ parts)
    (hname : search.name ∈ search.registered)
    (hclaimed : (pending settled parts).filter (fun slot => claims search.name slot.names) =
      claimed)
    (honce : BoundOnce search.family earlier claimed)
    (hdraws : AliasPool.Draws search.avoid pool (claimed.map fun slot => σ slot.key) pool') :
    search.scan earlier pool (parts.flatMap (Inline.partly search.family settled σ)) =
      .ok ⟨parts.flatMap (Inline.partly search.family
          (fun slot => settled slot || claims search.name slot.names) σ),
        claimed.map fun slot => slot.region search.family (σ slot.key), pool'⟩ := by
  have hscan := scan_parts_append hread hname hclaimed honce hdraws []
  rw [Search.scan_of_none search _ pool' rfl, List.append_nil] at hscan
  rw [hscan]
  simp [Except.map, Scanned.following]

/-- After a scan for `name` the regions that it binds are no longer pending. -/
theorem pending_or (settled : Slot ι → Bool) (name : String) (parts : List (Inline ι)) :
    pending (fun slot => settled slot || claims name slot.names) parts =
      (pending settled parts).filter fun slot => !claims name slot.names := by
  rw [pending, pending, List.filter_filter]
  refine List.filter_congr fun slot _ => ?_
  rw [Bool.not_or, Bool.and_comm]

/-- What the scan for `name` does when others come after it: these go on with the regions that it
has left. -/
theorem scanNames_cons_parts {avoid : List Char} {name : String} {earlier : List Region}
    {pool next : AliasPool} (hread : Readable family registered σ parts)
    (hname : name ∈ registered)
    (honce : BoundOnce family earlier
      ((pending settled parts).filter fun slot => claims name slot.names))
    (hdraws : AliasPool.Draws avoid pool
      (((pending settled parts).filter fun slot => claims name slot.names).map
        fun slot => σ slot.key) next)
    (names : List String) :
    Template.scanNames family registered avoid (name :: names)
        ⟨parts.flatMap (Inline.partly family settled σ), earlier, pool⟩ =
      Template.scanNames family registered avoid names
        ⟨parts.flatMap (Inline.partly family
            (fun slot => settled slot || claims name slot.names) σ),
          earlier ++ ((pending settled parts).filter fun slot => claims name slot.names).map
            fun slot => slot.region family (σ slot.key), next⟩ := by
  have hscan : Search.scan ⟨family, name, registered, avoid⟩ earlier pool
      (parts.flatMap (Inline.partly family settled σ)) =
        .ok ⟨parts.flatMap (Inline.partly family
            (fun slot => settled slot || claims name slot.names) σ),
          ((pending settled parts).filter fun slot => claims name slot.names).map
            fun slot => slot.region family (σ slot.key), next⟩ :=
    scan_parts hread hname rfl honce hdraws
  rw [Template.scanNames]
  simp only [hscan]

/-- What scans for one of `names` after the other do: they settle the regions of `parts` in the
order in which the names bind them. -/
theorem scanNames_parts {avoid : List Char} {names : List String} {earlier : List Region}
    {pool pool' : AliasPool} (hread : Readable family registered σ parts)
    (hnames : ∀ name ∈ names, name ∈ registered)
    (honce : BoundOnce family earlier (claimOrder Slot.names names (pending settled parts)))
    (hdraws : AliasPool.Draws avoid pool
      ((claimOrder Slot.names names (pending settled parts)).map fun slot => σ slot.key) pool') :
    Template.scanNames family registered avoid names
        ⟨parts.flatMap (Inline.partly family settled σ), earlier, pool⟩ =
      .ok ⟨parts.flatMap (Inline.partly family
          (fun slot => settled slot || names.any fun name => claims name slot.names) σ),
        earlier ++ (claimOrder Slot.names names (pending settled parts)).map
          fun slot => slot.region family (σ slot.key), pool'⟩ := by
  -- along the names; each scan leaves one of the same kind, with more regions settled
  induction names generalizing settled earlier pool with
  | nil =>
    cases hdraws
    simp [Template.scanNames, claimOrder]
  | cons name names ih =>
    rw [claimOrder] at honce
    rw [claimOrder, List.map_append, AliasPool.Draws.append_iff] at hdraws
    -- the aliases are drawn first for this name, then for the others
    obtain ⟨next, hround, hrest⟩ := hdraws
    have honce' := honce.right σ
    rw [← pending_or] at hrest honce'
    have hnext := ih (fun other hother => hnames other (List.mem_cons_of_mem _ hother)) honce' hrest
    rw [scanNames_cons_parts hread (hnames name List.mem_cons_self) honce.left hround, hnext,
      claimOrder, pending_or]
    simp [Bool.or_assoc]

/-- When all regions of `parts` are settled, each has its alias in its place. -/
theorem flatMap_partly_of_settled (h : ∀ slot ∈ parts.filterMap Inline.slot?, settled slot = true) :
    parts.flatMap (Inline.partly family settled σ) = parts.flatMap (Inline.aliased σ) := by
  refine List.flatMap_congr fun part hpart => ?_
  cases part with
  | text chars => rfl
  | slot region =>
    rw [Inline.partly, if_pos (h region (List.mem_filterMap.2 ⟨_, hpart, rfl⟩))]
    rfl

/-- When no region of `parts` is settled, all are as they are written. -/
theorem flatMap_partly_of_not_settled (parts : List (Inline ι)) :
    parts.flatMap (Inline.partly family (fun _ => false) σ) =
      parts.flatMap (Inline.markup family) := by
  refine List.flatMap_congr fun part _ => ?_
  cases part <;> rfl

/-- The region whose heading is `listed` is bound by one of the `registered` names: by the first of
its heading, if by no other. -/
theorem exists_claims {listed : List String} (hne : listed ≠ [])
    (hlisted : ∀ name ∈ listed, name ∈ registered) :
    ∃ name ∈ registered, claims name listed = true := by
  obtain ⟨name, names, rfl⟩ := List.exists_cons_of_ne_nil hne
  exact ⟨name, hlisted name List.mem_cons_self, claims_head name names⟩

/-- All regions of `parts` are bound, in the order in which the `registered` names bind them. -/
theorem scanFamily_parts {avoid : List Char} {pool pool' : AliasPool}
    (hread : Readable family registered σ parts)
    (honce : family.bindsOnce = true →
      ((parts.filterMap Inline.slot?).flatMap (·.names)).Nodup)
    (hdraws : AliasPool.Draws avoid pool
      ((claimOrder Slot.names registered (parts.filterMap Inline.slot?)).map
        fun slot => σ slot.key) pool') :
    Template.scanFamily (some family) registered avoid pool
        (parts.flatMap (Inline.markup family)) =
      .ok ⟨parts.flatMap (Inline.aliased σ),
        (claimOrder Slot.names registered (parts.filterMap Inline.slot?)).map
          fun slot => slot.region family (σ slot.key), pool'⟩ := by
  -- at the start every region is pending, and in the end none is
  have hpending : pending (fun _ => false) parts = parts.filterMap Inline.slot? := by
    simp [pending]
  have hclaimed : ∀ slot ∈ parts.filterMap Inline.slot?,
      ∃ name ∈ registered, claims name slot.names = true := fun slot hslot =>
    exists_claims (hread.slots slot hslot).names_ne_nil (hread.slots slot hslot).registered
  have honce' : BoundOnce family []
      (claimOrder Slot.names registered (pending (fun _ => false) parts)) := by
    intro hbinds
    rw [hpending]
    exact (((claimOrder_perm Slot.names hclaimed).flatMap_right _).nodup_iff).2 (honce hbinds)
  rw [← hpending] at hdraws
  have hscan := scanNames_parts hread (fun name hname => hname) honce' hdraws
  rw [flatMap_partly_of_not_settled, hpending] at hscan
  rw [Template.scanFamily, hscan, flatMap_partly_of_settled, List.nil_append]
  intro slot hslot
  simpa using hclaimed slot hslot

end Stencil
