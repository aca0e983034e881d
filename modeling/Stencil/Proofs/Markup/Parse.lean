import Stencil.Proofs.Markup.Rounds

/-!
# Reading a document back

The template that a document is written as is read as this document: with the mode of its family,
an alias in the place of each region, and the operations that the regions ask for. The two passes
of the reading see the document in two ways. To the pass for iterative regions the tags of
persistent regions are text; to the pass for persistent regions the iterative ones, which it finds
replaced, are.

Main definitions:

* `Document.slotOrder`, `Document.frameOrder`: the regions in the order in which they are bound.
* `Document.flat`, `Document.lasting`: the document as the passes see it.

Main statements:

* `detect_markup`: the mode of a document is detected.
* `scanFamily_flat`, `scanFamily_lasting`: what the passes do.
* `parse_of_draws`: the template that is read from a document, for the aliases that are drawn.
* `parse_markup`: a document is read back.
-/

namespace Stencil

variable {ι : Type} {family : Family} {names : TransformNames} {doc : Document ι} {σ : ι → String}

namespace Frame

/-- The names of the chain of `frame` as a heading lists them. -/
def heading (frame : Frame ι) : List Char :=
  List.intercalate ['|'] (frame.chain.map String.toList)

/-- However `write` puts the inside of `frame`, its heading is that of its chain. -/
theorem heading_toSlot (write : Inline ι → List Char) (frame : Frame ι) :
    (frame.toSlot write).heading .persistent = frame.heading := rfl

/-- The heading of `frame` has no reserved character `c` but those between the names. -/
theorem notMem_heading {frame : Frame ι}
    (hvalid : ∀ name ∈ frame.chain, Transforms.nameFlaw? name = none) {c : Char}
    (hc : Transforms.isReserved c = true) (hne : c ≠ '|') : c ∉ frame.heading := by
  rw [← heading_toSlot (Inline.aliased fun _ => "")]
  exact Slot.notMem_heading hvalid hc hne

end Frame

namespace Block

/-- A block in which the tags of a persistent region are texts. -/
def flat : Block ι → List (Inline ι)
  | .inline part => [part]
  | .frame region =>
    .text ('[' :: '@' :: region.heading ++ [']']) :: region.body ++
      [.text Family.persistent.closeTag]

/-- A block in which `σ` gives aliases for the iterative regions, as a part of a text with
persistent regions. -/
def lasting (σ : ι → String) : Block ι → Inline ι
  | .inline part => .text (part.aliased σ)
  | .frame region => .slot (region.toSlot (Inline.aliased σ))

end Block

namespace Document

/-- The iterative regions of `doc` in the order in which `names` bind them. -/
def slotOrder (names : TransformNames) (doc : Document ι) : List (Slot ι) :=
  claimOrder Slot.names names.iterative doc.slots

/-- The persistent regions of `doc` in the order in which `names` bind them. -/
def frameOrder (names : TransformNames) (doc : Document ι) : List (Frame ι) :=
  claimOrder Frame.chain names.persistent doc.frames

/-- The keys of all regions of `doc` in the order in which `names` bind the regions. -/
def keyOrder (names : TransformNames) (doc : Document ι) : List ι :=
  (doc.slotOrder names).map (·.key) ++ (doc.frameOrder names).map (·.key)

/-- The document `doc` as the pass for iterative regions sees it. -/
def flat (doc : Document ι) : List (Inline ι) :=
  doc.blocks.flatMap Block.flat

/-- The document `doc` as the pass for persistent regions sees it, with aliases `σ` for the
iterative ones. -/
def lasting (σ : ι → String) (doc : Document ι) : List (Inline ι) :=
  doc.blocks.map (Block.lasting σ)

/-! ### The document as the passes see it -/

/-- The pass for iterative regions sees `doc` as it is written, whatever `write` puts for the
regions. -/
theorem flatMap_flat {write : Inline ι → List Char} (htext : ∀ chars, write (.text chars) = chars)
    (doc : Document ι) :
    doc.flat.flatMap write = doc.blocks.flatMap fun block =>
      match block with
      | .inline part => write part
      | .frame region => (region.toSlot write).markup .persistent := by
  rw [flat, List.flatMap_assoc]
  refine List.flatMap_congr fun block _ => ?_
  cases block with
  | inline part => simp [Block.flat]
  | frame region =>
    simp only [Block.flat, Slot.markup, Frame.heading_toSlot]
    simp [htext, Frame.toSlot, Family.sigil]

/-- The pass for iterative regions starts from `doc.markup family`. -/
theorem flatMap_flat_markup (family : Family) (doc : Document ι) :
    doc.flat.flatMap (Inline.markup family) = doc.markup family :=
  flatMap_flat (fun _ => rfl) doc

/-- The text that `doc.flat` leaves, with aliases, is the one that `doc.lasting σ` starts from. -/
theorem flatMap_flat_aliased (σ : ι → String) (doc : Document ι) :
    doc.flat.flatMap (Inline.aliased σ) =
      (doc.lasting σ).flatMap (Inline.markup .persistent) := by
  rw [flatMap_flat (fun _ => rfl), lasting, List.flatMap_map]
  refine List.flatMap_congr fun block _ => ?_
  cases block <;> rfl

/-- The pass for persistent regions leaves `doc.aliased σ`. -/
theorem flatMap_lasting_aliased (σ : ι → String) (doc : Document ι) :
    (doc.lasting σ).flatMap (Inline.aliased σ) = doc.aliased σ := by
  rw [aliased, lasting, List.flatMap_map]
  refine List.flatMap_congr fun block _ => ?_
  cases block <;> rfl

/-- The pass for iterative regions sees all of `doc.slots`. -/
theorem filterMap_slot?_flat (doc : Document ι) : doc.flat.filterMap Inline.slot? = doc.slots := by
  rw [slots, flat, parts, List.filterMap_flatMap, List.filterMap_flatMap]
  refine List.flatMap_congr fun block _ => ?_
  cases block with
  | inline part => rfl
  | frame region =>
    rw [Block.flat, List.cons_append, List.filterMap_cons_none rfl, List.filterMap_append,
      List.filterMap_cons_none rfl, List.filterMap_nil, List.append_nil]
    rfl

/-- The pass for persistent regions sees all of `doc.frames`. -/
theorem filterMap_slot?_lasting (σ : ι → String) (doc : Document ι) :
    (doc.lasting σ).filterMap Inline.slot? =
      doc.frames.map fun frame => frame.toSlot (Inline.aliased σ) := by
  rw [lasting, frames, List.filterMap_map, List.map_filterMap]
  refine List.filterMap_congr fun block _ => ?_
  cases block <;> rfl

/-- A `part` of `doc` as the pass for iterative regions sees it is one of `doc.parts`, or a tag of a
persistent region. -/
theorem mem_flat {part : Inline ι} (h : part ∈ doc.flat) :
    part ∈ doc.parts ∨ (∃ frame ∈ doc.frames, part = .text ('[' :: '@' :: frame.heading ++ [']'])) ∨
      part = .text Family.persistent.closeTag := by
  obtain ⟨block, hblock, hpart⟩ := List.mem_flatMap.1 h
  cases block with
  | inline other =>
    refine .inl (List.mem_flatMap.2 ⟨_, hblock, hpart⟩)
  | frame region =>
    simp only [Block.flat, List.cons_append, List.mem_cons, List.mem_append, List.not_mem_nil,
      or_false] at hpart
    rcases hpart with rfl | hpart | rfl
    · exact .inr (.inl ⟨region, List.mem_filterMap.2 ⟨_, hblock, rfl⟩, rfl⟩)
    · exact .inl (List.mem_flatMap.2 ⟨_, hblock, hpart⟩)
    · exact .inr (.inr rfl)

/-! ### What the passes find can be read back -/

section Legible

variable (hdoc : doc.Legible family names)

include hdoc

/-- The names in the chain of `frame` can be written in headings. -/
theorem Legible.valid_chain {frame : Frame ι} (hframe : frame ∈ doc.frames) :
    ∀ name ∈ frame.chain, Transforms.nameFlaw? name = none := fun name hname =>
  hdoc.valid name (List.mem_append_right _ ((hdoc.chains frame hframe).2 name hname))

/-- The texts that the pass for iterative regions sees are inert for each `other` iterative
family. -/
theorem Legible.inert_text {other : Family} (hother : other ∈ Family.iterative)
    {chars : List Char} (h : Inline.text chars ∈ doc.flat) : Inert other chars := by
  have hsigil : '@' ≠ other.sigil := by
    revert hother
    cases other <;> decide
  rcases mem_flat h with hpart | ⟨frame, hframe, heq⟩ | heq
  · exact inert_of_notMem other (hdoc.parts _ hpart)
  · -- an open tag of a persistent region
    simp only [Inline.text.injEq] at heq
    have hheading : '[' ∉ frame.heading :=
      Frame.notMem_heading (hdoc.valid_chain hframe) (by decide) (by decide)
    rw [heq]
    exact inert_tag hsigil (by simp [hheading])
  · -- a close tag of one
    simp only [Inline.text.injEq] at heq
    rw [heq]
    exact inert_tag hsigil (by decide)

/-- Each `slot` of `doc` is sound. -/
theorem Legible.sound_slot {slot : Slot ι} (h : slot ∈ doc.slots) :
    slot.Sound family names.iterative :=
  hdoc.parts _ (Inline.mem_filterMap_slot?.1 h)

/-- Each of `doc.slots` is bound once, if none is refused. -/
theorem Legible.perm_slotOrder : (doc.slotOrder names).Perm doc.slots := by
  refine claimOrder_perm Slot.names fun slot hslot => ?_
  have hsound := hdoc.sound_slot hslot
  exact exists_claims hsound.names_ne_nil hsound.registered

/-- If no alias that `σ` gives has a bracket, `doc.flat` can be read back. -/
theorem Legible.readable_flat (hσ : ∀ slot ∈ doc.slots, '[' ∉ (σ slot.key).toList) :
    Readable family names.iterative σ doc.flat where
  valid name hname := hdoc.valid name (List.mem_append_left _ hname)
  texts _ hchars := hdoc.inert_text hdoc.iterative hchars
  slots _ hslot := hdoc.sound_slot (filterMap_slot?_flat doc ▸ hslot)
  aliases slot hslot := hσ slot (filterMap_slot?_flat doc ▸ hslot)

/-! ### The mode of a document -/

/-- No tag of an `other` family starts in `slot`. -/
theorem Legible.inert_slot {other : Family} (hne : other ≠ family) {slot : Slot ι}
    (hslot : slot ∈ doc.slots) : Inert other (slot.markup family) := by
  have hsigil : family.sigil ≠ other.sigil := by
    revert hne
    cases family <;> cases other <;> decide
  have hsound := hdoc.sound_slot hslot
  have hheading : '[' ∉ slot.heading family :=
    Slot.notMem_heading
      (fun name hname => hdoc.valid name (List.mem_append_left _ (hsound.registered name hname)))
      (by decide) family.ne_joint_of_bracket.1
  have hopen : '[' ∉ family.sigil :: (slot.heading family ++ ']' :: slot.literal) := by
    simp [family.sigil_ne_bracket.1, hheading, hsound.literal]
  have hclose : '[' ∉ [family.sigil, 'e', 'n', 'd', ']'] := by
    simp [family.sigil_ne_bracket.1]
  -- the two tags of the region, each with the text behind it
  exact (inert_tag hsigil hopen).append (inert_tag hsigil hclose)

/-- No tag of an `other` iterative family starts in `doc`, nor one of `family` itself if it has no
regions. -/
theorem Legible.inert_markup {other : Family} (hother : other ∈ Family.iterative)
    (hnone : other = family → doc.slots = []) : Inert other (doc.markup family) := by
  rw [← flatMap_flat_markup]
  refine Inert.flatMap fun part hpart => ?_
  cases part with
  | text chars => exact hdoc.inert_text hother hpart
  | slot region =>
    have hslot : region ∈ doc.slots := by
      rw [← filterMap_slot?_flat]
      exact Inline.mem_filterMap_slot?.2 hpart
    refine hdoc.inert_slot (fun heq => ?_) hslot
    exact List.ne_nil_of_mem hslot (hnone heq)

omit hdoc in
/-- The close tag of `family` occurs in a document with iterative regions. -/
theorem closeTag_infix_markup (hslots : doc.slots ≠ []) :
    family.closeTag <:+: doc.markup family := by
  obtain ⟨slot, slots, hcons⟩ := List.exists_cons_of_ne_nil hslots
  have hslot : Inline.slot slot ∈ doc.flat := by
    rw [← Inline.mem_filterMap_slot?, filterMap_slot?_flat, hcons]
    exact List.mem_cons_self
  have hclose : family.closeTag <:+: Inline.markup family (.slot slot) :=
    (List.suffix_append _ _).isInfix
  rw [← flatMap_flat_markup]
  exact hclose.trans (List.infix_of_mem_flatten (List.mem_map_of_mem hslot))

/-- The close tag of an `other` iterative family occurs in `doc` exactly if it is `family` and there
are iterative regions. -/
theorem Legible.occurs_closeTag {other : Family} (hother : other ∈ Family.iterative) :
    Text.occurs other.closeTag (doc.markup family) =
      (decide (other = family) && !doc.slots.isEmpty) := by
  by_cases hslots : doc.slots = []
  · rw [(hdoc.inert_markup hother fun _ => hslots).occurs_closeTag, hslots]
    simp
  · by_cases heq : other = family
    · rw [heq, Text.occurs_iff.2 (closeTag_infix_markup hslots)]
      simpa using hslots
    · rw [(hdoc.inert_markup hother fun h => absurd h heq).occurs_closeTag]
      simp [heq]

/-- The mode `doc.mode family` is detected. -/
theorem Legible.detect_markup : Mode.detect (doc.markup family) = .ok (doc.mode family) := by
  have hfamilies : Mode.familiesIn (doc.markup family) =
      Family.iterative.filter fun other => decide (other = family) && !doc.slots.isEmpty :=
    List.filter_congr fun other hother => hdoc.occurs_closeTag hother
  have hiterative := hdoc.iterative
  rw [Mode.detect, hfamilies, mode]
  revert hiterative
  cases doc.slots.isEmpty <;> cases family <;> decide

end Legible

variable (hdoc : doc.WellFormed family names)

include hdoc

/-- The mode `doc.mode family` of a well-formed document is detected. -/
theorem WellFormed.detect_markup : Mode.detect (doc.markup family) = .ok (doc.mode family) :=
  hdoc.legible.detect_markup

/-! ### What is read back -/

/-- No tag starts in a `part` whose regions are replaced by aliases without brackets. -/
theorem WellFormed.notMem_aliased (hσ : ∀ slot ∈ doc.slots, '[' ∉ (σ slot.key).toList)
    {part : Inline ι} (hpart : part ∈ doc.parts) : '[' ∉ part.aliased σ := by
  cases part with
  | text chars => exact hdoc.parts _ hpart
  | slot region => exact hσ region (Inline.mem_filterMap_slot?.2 hpart)

/-- If no alias that `σ` gives has a bracket, `doc.lasting σ` can be read back. -/
theorem WellFormed.readable_lasting (hσ : ∀ slot ∈ doc.slots, '[' ∉ (σ slot.key).toList)
    (hσ' : ∀ frame ∈ doc.frames, '[' ∉ (σ frame.key).toList) :
    Readable .persistent names.persistent σ (doc.lasting σ) where
  valid name hname := hdoc.valid name (List.mem_append_right _ hname)
  texts chars hchars := by
    obtain ⟨block, hblock, heq⟩ := List.mem_map.1 hchars
    cases block with
    | inline part =>
      simp only [Block.lasting, Inline.text.injEq] at heq
      rw [← heq]
      refine inert_of_notMem _ (hdoc.notMem_aliased hσ ?_)
      exact List.mem_flatMap.2 ⟨_, hblock, List.mem_singleton.2 rfl⟩
    | frame region => exact absurd heq (by simp [Block.lasting])
  slots slot hslot := by
    rw [filterMap_slot?_lasting] at hslot
    obtain ⟨frame, hframe, rfl⟩ := List.mem_map.1 hslot
    obtain ⟨hne, hregistered⟩ := hdoc.chains frame hframe
    refine ⟨hne, hregistered, fun hnone => absurd hnone (by decide), ?_⟩
    -- a tag inside the region would start in one of its parts
    intro hmem
    obtain ⟨part, hpart, hbracket⟩ := List.mem_flatMap.1 hmem
    obtain ⟨block, hblock, hsome⟩ := List.mem_filterMap.1 hframe
    refine hdoc.notMem_aliased hσ (List.mem_flatMap.2 ⟨block, hblock, ?_⟩) hbracket
    cases block with
    | inline other => exact absurd hsome (by simp [Block.frame?])
    | frame region =>
      simp only [Block.frame?, Option.some.injEq] at hsome
      exact hsome ▸ hpart
  aliases slot hslot := by
    rw [filterMap_slot?_lasting] at hslot
    obtain ⟨frame, hframe, rfl⟩ := List.mem_map.1 hslot
    exact hσ' frame hframe

/-! ### Reading a document -/

/-- If the aliases of `doc.slotOrder names` are drawn, the pass for iterative regions puts them in
the place of these. -/
theorem WellFormed.scanFamily_flat {avoid : List Char} {pool pool' : AliasPool}
    (hσ : ∀ slot ∈ doc.slots, '[' ∉ (σ slot.key).toList)
    (hdraws : AliasPool.Draws avoid pool ((doc.slotOrder names).map fun slot => σ slot.key) pool') :
    Template.scanFamily (doc.mode family).family? names.iterative avoid pool
        (doc.markup family) =
      .ok ⟨doc.flat.flatMap (Inline.aliased σ),
        (doc.slotOrder names).map fun slot => slot.region family (σ slot.key), pool'⟩ := by
  rw [← flatMap_flat_markup]
  by_cases hslots : doc.slots = []
  · -- no family is looked for, and there is nothing to replace
    have horder : doc.slotOrder names = [] := by
      rw [slotOrder, hslots, claimOrder_nil_right]
    have hnone : ∀ slot ∈ doc.flat.filterMap Inline.slot?, false = true := by
      rw [filterMap_slot?_flat, hslots]
      simp
    rw [horder] at hdraws ⊢
    cases hdraws
    rw [← flatMap_partly_of_settled hnone, flatMap_partly_of_not_settled, mode, hslots]
    rfl
  · have hfamily : (doc.mode family).family? = some family := by
      rw [mode, if_neg (by simpa using hslots), Mode.family?_ofFamily hdoc.iterative]
    have hread := hdoc.legible.readable_flat hσ
    rw [slotOrder, ← filterMap_slot?_flat] at hdraws
    have hscan := scanFamily_parts hread (filterMap_slot?_flat doc ▸ hdoc.once) hdraws
    rw [hfamily, hscan, filterMap_slot?_flat]
    rfl

/-- If the aliases of `doc.frameOrder names` are drawn, the pass for persistent regions puts them in
the place of these. -/
theorem WellFormed.scanFamily_lasting {avoid : List Char} {pool pool' : AliasPool}
    (hσ : ∀ slot ∈ doc.slots, '[' ∉ (σ slot.key).toList)
    (hσ' : ∀ frame ∈ doc.frames, '[' ∉ (σ frame.key).toList)
    (hdraws : AliasPool.Draws avoid pool
      ((doc.frameOrder names).map fun frame => σ frame.key) pool') :
    Template.scanFamily (some .persistent) names.persistent avoid pool
        (doc.flat.flatMap (Inline.aliased σ)) =
      .ok ⟨doc.aliased σ, (doc.frameOrder names).map fun frame =>
        (frame.toSlot (Inline.aliased σ)).region .persistent (σ frame.key), pool'⟩ := by
  -- the frames are slots whose text has aliases in it
  have horder : claimOrder Slot.names names.persistent
      ((doc.lasting σ).filterMap Inline.slot?) =
        (doc.frameOrder names).map fun frame => frame.toSlot (Inline.aliased σ) := by
    rw [filterMap_slot?_lasting, claimOrder_map]
    rfl
  have hdraws' : AliasPool.Draws avoid pool
      ((claimOrder Slot.names names.persistent ((doc.lasting σ).filterMap Inline.slot?)).map
        fun slot => σ slot.key) pool' := by
    rw [horder, List.map_map]
    exact hdraws
  have hscan := scanFamily_parts (hdoc.readable_lasting hσ hσ')
    (fun hbinds => absurd hbinds (by decide)) hdraws'
  rw [flatMap_flat_aliased, hscan, horder, flatMap_lasting_aliased, List.map_map]
  rfl

/-- The operation of `frame` is that of the region found. -/
theorem WellFormed.persistentOperation_region {frame : Frame ι} (hframe : frame ∈ doc.frames) :
    ((frame.toSlot (Inline.aliased σ)).region .persistent (σ frame.key)).persistentOperation =
      frame.operation σ := by
  -- nothing in the heading is trimmed
  have hblank : ∀ c ∈ frame.heading, Text.isBlank c = false := by
    intro c hc
    rw [← Bool.not_eq_true]
    intro hblank
    refine Frame.notMem_heading (hdoc.legible.valid_chain hframe) ?_ ?_ hc
    · simp [Transforms.isReserved, hblank]
    · rintro rfl
      exact absurd hblank (by decide)
  have hbinding : String.ofList frame.heading = "|".intercalate frame.chain := by
    rw [← String.toList_inj, String.toList_ofList, String.toList_intercalate]
    rfl
  rw [Region.persistentOperation, Frame.operation, Slot.region, Frame.heading_toSlot,
    String.toList_ofList, Text.trim_eq_self hblank, hbinding]
  rfl

omit hdoc in
/-- Any `values`, as many as there are different `keys`, are given to these by some `σ`. -/
theorem exists_map_eq {keys : List ι} (hkeys : keys.Nodup) {values : List String}
    (hlength : keys.length = values.length) : ∃ σ : ι → String, keys.map σ = values := by
  classical
  induction keys generalizing values with
  | nil =>
    refine ⟨fun _ => "", ?_⟩
    rw [List.map_nil, List.eq_nil_of_length_eq_zero hlength.symm]
  | cons key keys ih =>
    cases values with
    | nil => exact absurd hlength (by simp)
    | cons value values =>
      obtain ⟨hnew, hkeys⟩ := List.nodup_cons.1 hkeys
      -- the first key gets its value, which the others do not see, because it is not among them
      obtain ⟨σ, hσ⟩ := ih hkeys (Nat.succ.inj hlength)
      refine ⟨fun other => if other = key then value else σ other, ?_⟩
      rw [List.map_cons, if_pos rfl, ← hσ]
      congr 1
      refine List.map_congr_left fun other hother => if_neg ?_
      rintro rfl
      exact hnew hother

omit hdoc

/-- Each of `doc.slots` is bound once. -/
theorem WellFormed.perm_slotOrder (hdoc : doc.WellFormed family names) :
    (doc.slotOrder names).Perm doc.slots :=
  hdoc.legible.perm_slotOrder

/-- Each of `doc.frames` is bound once. -/
theorem WellFormed.perm_frameOrder (hdoc : doc.WellFormed family names) :
    (doc.frameOrder names).Perm doc.frames := by
  refine claimOrder_perm Frame.chain fun frame hframe => ?_
  obtain ⟨hne, hregistered⟩ := hdoc.chains frame hframe
  exact exists_claims hne hregistered

/-- The regions that are bound are those of `doc.keys`. -/
theorem WellFormed.perm_keyOrder (hdoc : doc.WellFormed family names) :
    (doc.keyOrder names).Perm doc.keys :=
  (hdoc.perm_slotOrder.map _).append (hdoc.perm_frameOrder.map _)

/-- If the aliases that are drawn are those of the regions, in the order in which these are bound,
then `σ` tells what stands in the place of each region. -/
theorem WellFormed.parse_of_draws (hdoc : doc.WellFormed family names) {pool pool' : AliasPool}
    (hall : AliasPool.Draws (doc.markup family) pool ((doc.keyOrder names).map σ) pool') :
    Template.parse (String.ofList (doc.markup family)) names pool =
      .ok ({ mode := doc.mode family
             text := String.ofList (doc.aliased σ)
             operations := (doc.slotOrder names).flatMap (Slot.operations σ)
             persistent := (doc.frameOrder names).map (Frame.operation σ) }, pool') := by
  have hperm := hdoc.perm_keyOrder
  have hdrawn : ∀ key ∈ doc.keys, σ key ∈ (doc.keyOrder names).map σ := fun key hkey =>
    List.mem_map_of_mem ((hperm.mem_iff).2 hkey)
  -- aliases consist of letters, so no tag starts in them
  have hplain : ∀ key ∈ doc.keys, '[' ∉ (σ key).toList := fun key hkey =>
    hall.notMem_of_notMem_letters (hdrawn key hkey) (by decide)
  have hslots : ∀ slot ∈ doc.slots, '[' ∉ (σ slot.key).toList := fun slot hslot =>
    hplain _ (List.mem_append_left _ (List.mem_map_of_mem hslot))
  have hframes : ∀ frame ∈ doc.frames, '[' ∉ (σ frame.key).toList := fun frame hframe =>
    hplain _ (List.mem_append_right _ (List.mem_map_of_mem hframe))
  -- the pass for iterative regions draws the first aliases, the one for persistent regions the rest
  rw [keyOrder, List.map_append, List.map_map, List.map_map, AliasPool.Draws.append_iff] at hall
  obtain ⟨next, hvarying, hlasting⟩ := hall
  have hpersistent : ((doc.frameOrder names).map fun frame =>
      (frame.toSlot (Inline.aliased σ)).region .persistent (σ frame.key)).map
        Region.persistentOperation = (doc.frameOrder names).map (Frame.operation σ) := by
    rw [List.map_map]
    refine List.map_congr_left fun frame hframe => ?_
    exact hdoc.persistentOperation_region ((hdoc.perm_frameOrder.mem_iff).1 hframe)
  rw [Template.parse, String.toList_ofList, hdoc.detect_markup]
  simp only [hdoc.scanFamily_flat hslots hvarying,
    hdoc.scanFamily_lasting hslots hframes hlasting, hpersistent, List.flatMap_map]
  rfl

/-- A document `doc` is read back from the way it is written, if the draws of aliases end: its mode
is that of `family`, and `σ` gives the aliases in the places of the regions, which are all different
and absent from `doc.markup family`. Each iterative region asks for one operation for each name of
its heading, in order (`Slot.operations`), and each persistent region for one operation
(`Frame.operation`), whose text has aliases in the places of the regions inside. -/
theorem parse_markup (hdoc : doc.WellFormed family names) {pool : AliasPool}
    (hdraws : (pool.freshList (doc.markup family) doc.keys.length).length = doc.keys.length) :
    ∃ (σ : ι → String) (pool' : AliasPool),
      (doc.keyOrder names).map σ = pool.freshList (doc.markup family) doc.keys.length ∧
        (doc.keys.map σ).Nodup ∧
        (∀ key ∈ doc.keys, Text.occurs (σ key).toList (doc.markup family) = false) ∧
        (doc.slotOrder names).Perm doc.slots ∧ (doc.frameOrder names).Perm doc.frames ∧
        Template.parse (String.ofList (doc.markup family)) names pool =
          .ok ({ mode := doc.mode family
                 text := String.ofList (doc.aliased σ)
                 operations := (doc.slotOrder names).flatMap (Slot.operations σ)
                 persistent := (doc.frameOrder names).map (Frame.operation σ) }, pool') := by
  have hperm := hdoc.perm_keyOrder
  -- the alias of each key, in the order in which the draws come
  obtain ⟨pool', hall, -⟩ :=
    AliasPool.draws_freshList (doc.markup family) doc.keys.length pool
  obtain ⟨σ, hσ⟩ := exists_map_eq ((hperm.nodup_iff).2 hdoc.keys)
    (hperm.length_eq.trans hdraws.symm)
  rw [← hσ] at hall
  have hdrawn : ∀ key ∈ doc.keys, σ key ∈ (doc.keyOrder names).map σ := fun key hkey =>
    List.mem_map_of_mem ((hperm.mem_iff).2 hkey)
  exact ⟨σ, pool', hσ, ((hperm.map σ).nodup_iff).1 hall.nodup,
    fun key hkey => hall.not_occurs (hdrawn key hkey), hdoc.perm_slotOrder,
    hdoc.perm_frameOrder, hdoc.parse_of_draws hall⟩

theorem wellFormed_nested : nested.WellFormed .single nestedNames where
  iterative := by decide
  valid := by decide
  parts := by
    rw [show nested.parts = [.slot ⟨0, ["e", "x"], ['1']⟩, .text [' ', ']'], .text ['a'],
      .slot ⟨2, ["ex"], ['2']⟩] from rfl]
    simp only [List.forall_mem_cons, Inline.Sound]
    refine ⟨⟨?_, ?_, ?_, ?_⟩, ?_, ?_, ⟨?_, ?_, ?_, ?_⟩, by simp⟩
    all_goals decide
  chains := by decide
  once := by decide
  keys := by decide

/-- The name `e` binds the region whose heading lists it first, and neither the one of `ex` nor a
close tag. -/
theorem parse_markup_nested :
    nested.WellFormed .single nestedNames ∧
      (nestedPool.freshList (nested.markup .single) nested.keys.length).length =
        nested.keys.length ∧
      ∃ (σ : Nat → String) (pool' : AliasPool),
        Template.parse "[+e;x]1[+end] ][@e|trim]a[+ex]2[+end][@end]" nestedNames nestedPool =
          .ok ({ mode := .single
                 text := String.ofList (nested.aliased σ)
                 operations :=
                  [⟨"e", σ 0, "1", none⟩, ⟨"x", σ 0, "1", none⟩, ⟨"ex", σ 2, "2", none⟩]
                 persistent :=
                  [⟨"e|trim", ["e", "trim"], σ 1, String.ofList ('a' :: (σ 2).toList)⟩] },
              pool') := by
  have hdraws : (nestedPool.freshList (nested.markup .single) nested.keys.length).length =
      nested.keys.length := by decide +kernel
  obtain ⟨σ, pool', -, -, -, -, -, hparse⟩ := parse_markup wellFormed_nested hdraws
  have hslots : nested.slotOrder nestedNames = [⟨0, ["e", "x"], ['1']⟩, ⟨2, ["ex"], ['2']⟩] := by
    decide
  have hframes : nested.frameOrder nestedNames =
      [⟨1, ["e", "trim"], [.text ['a'], .slot ⟨2, ["ex"], ['2']⟩]⟩] := by
    decide
  have hmarkup : String.ofList (nested.markup .single) =
      "[+e;x]1[+end] ][@e|trim]a[+ex]2[+end][@end]" := by decide
  have hframe : Frame.operation σ ⟨1, ["e", "trim"], [.text ['a'], .slot ⟨2, ["ex"], ['2']⟩]⟩ =
      ⟨"e|trim", ["e", "trim"], σ 1, String.ofList ('a' :: (σ 2).toList)⟩ := by
    have hbinding : "|".intercalate ["e", "trim"] = "e|trim" := by decide
    simp [Frame.operation, Inline.aliased, hbinding]
  refine ⟨wellFormed_nested, hdraws, σ, pool', ?_⟩
  rw [hmarkup, hslots, hframes, List.map_singleton, hframe] at hparse
  exact hparse

end Document

end Stencil
