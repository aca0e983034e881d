import Mathlib.Data.List.Basic
import Stencil.Engine
import Stencil.Proofs.Markup.Document
import Stencil.Proofs.Markup.Holes

/-!
# The payload of a document

A payload is made by replacing one alias after the other in a growing text. What comes of it is
what the document says: texts are copied, iterative regions show their values, and persistent
regions show what their chains make of what stands inside them. Neither the aliases nor the order
of the regions matter, as long as the aliases are fresh.

Main definitions:

* `Document.evaluate`: what a document says.
* `Document.Current`: substitutions that show values in the iterative regions.
* `Document.Fresh`: aliases that no replacement mistakes.
* `Transforms.Pure`: persistent transforms that always make the same of a text.

Main statements:

* `runChain_pure`, `applyPersistent_pure`: chains of pure transforms.
* `render_eq_evaluate`: a payload is what the document says.
-/

namespace Stencil

variable {ι : Type} {doc : Document ι} {σ values : ι → String} {edit : String → String → String}
  {subs : List Substitution}

/-! ### What a document says -/

/-- A part that is copied or shows its value in `values`. -/
def Inline.evaluate (values : ι → String) : Inline ι → List Char
  | .text chars => chars
  | .slot region => (values region.key).toList

/-- What the chain of a persistent region makes of what stands inside, `edit` being what each
transform makes of a text. -/
def Frame.evaluate (values : ι → String) (edit : String → String → String) (frame : Frame ι) :
    String :=
  frame.chain.foldl (fun text name => edit name text)
    (String.ofList (frame.body.flatMap (Inline.evaluate values)))

/-- What a block says: `edit` tells what a persistent transform makes of a text. -/
def Block.evaluate (values : ι → String) (edit : String → String → String) :
    Block ι → List Char
  | .inline part => part.evaluate values
  | .frame region => (region.evaluate values edit).toList

/-- What `doc` says, with `values` in its iterative regions and `edit` applied to its persistent
ones. -/
def Document.evaluate (values : ι → String) (edit : String → String → String)
    (doc : Document ι) : List Char :=
  doc.blocks.flatMap (Block.evaluate values edit)

/-! ### Documents as texts with holes -/

/-- A part of a document, as a piece of a text with holes for the aliases that `σ` gives. -/
def Inline.chunk (σ : ι → String) : Inline ι → Chunk
  | .text chars => .text chars
  | .slot region => .hole (σ region.key)

/-- A block of a document, as a piece of a text with holes for the aliases that `σ` gives. -/
def Block.chunk (σ : ι → String) : Block ι → Chunk
  | .inline part => part.chunk σ
  | .frame region => .hole (σ region.key)

/-- A text with holes is spelled as the parts with aliases. -/
theorem spell_map_chunk (σ : ι → String) (parts : List (Inline ι)) :
    spell (parts.map (Inline.chunk σ)) = parts.flatMap (Inline.aliased σ) := by
  rw [spell, List.flatMap_map]
  refine List.flatMap_congr fun part _ => ?_
  cases part <;> rfl

namespace Document

/-- A text with holes is spelled as the document with aliases. -/
theorem spell_map_chunk (σ : ι → String) (doc : Document ι) :
    spell (doc.blocks.map (Block.chunk σ)) = doc.aliased σ := by
  rw [spell, aliased, List.flatMap_map]
  refine List.flatMap_congr fun block _ => ?_
  cases block with
  | inline part => cases part <;> rfl
  | frame region => rfl

/-- Substitutions that show values: they are for iterative regions only, and for each of these the
first one shows its value. -/
structure Current (σ values : ι → String) (subs : List Substitution) (doc : Document ι) :
    Prop where
  /-- Each substitution is for an iterative region. -/
  known : ∀ sub ∈ subs, ∃ slot ∈ doc.slots, sub.aliasName = σ slot.key
  /-- Each iterative region shows its value. -/
  first : ∀ slot ∈ doc.slots,
    (subs.find? fun sub => sub.aliasName = σ slot.key).map (·.value) = some (values slot.key)

/-- The substitutions that fill the persistent regions `frames`. -/
def results (σ values : ι → String) (edit : String → String → String)
    (frames : List (Frame ι)) : List Substitution :=
  frames.map fun frame => ⟨σ frame.key, frame.evaluate values edit⟩

/-- Aliases that no replacement mistakes: they are all different, and in the document, while its
iterative and then its persistent regions are filled, and inside each persistent region, while its
iterative regions are, the alias that is replaced is read only at its holes. -/
structure Fresh (σ values : ι → String) (edit : String → String → String)
    (subs : List Substitution) (frames : List (Frame ι)) (doc : Document ι) : Prop where
  /-- The aliases are all different. -/
  distinct : (doc.keys.map σ).Nodup
  /-- No replacement in the document is mistaken. -/
  payload : Undisturbed (subs ++ results σ values edit frames) (doc.blocks.map (Block.chunk σ))
  /-- No replacement inside a persistent region is mistaken. -/
  bodies : ∀ frame ∈ doc.frames, Undisturbed subs (frame.body.map (Inline.chunk σ))

end Document

/-- The persistent transforms that `chain` names are pure: they always succeed, and what they make
of a text is what `edit` does, however often they were applied before. -/
def Transforms.Pure (set : Transforms) (edit : String → String → String) (chain : List String) :
    Prop :=
  ∀ name ∈ chain, ∃ transform, set.persistent.find? name = some transform ∧
    ∀ count text, transform.edit count text = .ok (edit name text)

/-- A `chain` of pure transforms applies `edit` from left to right. -/
theorem runChain_pure {set : Transforms} {chain : List String} (h : set.Pure edit chain)
    (text : String) (uses : Roster Nat) :
    (runChain set.application chain text uses).1 =
      .ok (chain.foldl (fun text name => edit name text) text) := by
  induction chain generalizing text uses with
  | nil => rfl
  | cons name chain ih =>
    obtain ⟨transform, hfind, hedit⟩ := h name List.mem_cons_self
    have hrest : set.Pure edit chain := fun other hother => h other (List.mem_cons_of_mem _ hother)
    -- the count of applications is passed on, and no transform looks at it
    rw [runChain, Transforms.application, hfind]
    simp only [hedit, Except.mapError]
    exact ih hrest _ _

/-- The regions of `ops`, which have chains of pure transforms, are filled by substitutions. -/
theorem applyPersistent_pure {set : Transforms} {ops : List PersistentOperation}
    (h : ∀ op ∈ ops, set.Pure edit op.chain) (subs : List Substitution) (payload : List Char)
    (uses : Roster Nat) :
    (applyPersistent set.application subs ops payload uses).1 =
      .ok (substitute
        (ops.map fun op => ⟨op.aliasName, op.chain.foldl (fun text name => edit name text)
          (String.ofList (substitute subs op.literal.toList))⟩) payload) := by
  induction ops generalizing payload uses with
  | nil => rfl
  | cons op ops ih =>
    have hrun := runChain_pure (h op List.mem_cons_self)
      (String.ofList (substitute subs op.literal.toList)) uses
    have hrest : ∀ op ∈ ops, set.Pure edit op.chain := fun other hother =>
      h other (List.mem_cons_of_mem _ hother)
    rw [applyPersistent]
    generalize runChain set.application op.chain
      (String.ofList (substitute subs op.literal.toList)) uses = outcome at hrun
    obtain ⟨value, uses⟩ := outcome
    simp only at hrun
    subst hrun
    exact ih hrest _ _

/-! ### The payload of a document -/

/-- A hole for `aliasName` shows the `value` of the first of `subs` for this alias. -/
theorem spell_fillAll_hole {aliasName value : String}
    (h : (subs.find? fun sub => sub.aliasName = aliasName).map (·.value) = some value) :
    ((Chunk.hole aliasName).fillAll subs).spell = value.toList := by
  obtain ⟨sub, hfind, rfl⟩ := Option.map_eq_some_iff.1 h
  rw [Chunk.fillAll_hole, hfind]
  rfl

/-- A `part` shows its value, if there is a substitution for it. -/
theorem Inline.spell_fillAll_chunk {part : Inline ι}
    (h : ∀ slot, part = .slot slot →
      (subs.find? fun sub => sub.aliasName = σ slot.key).map (·.value) =
        some (values slot.key)) :
    ((part.chunk σ).fillAll subs).spell = part.evaluate values := by
  cases part with
  | text chars =>
    rw [chunk, Chunk.fillAll_text]
    rfl
  | slot region => exact spell_fillAll_hole (h region rfl)

namespace Document

/-- The iterative regions inside `frame` are regions of `doc`. -/
theorem slot_mem_of_mem_body {frame : Frame ι} (hframe : frame ∈ doc.frames) {slot : Slot ι}
    (hslot : Inline.slot slot ∈ frame.body) : slot ∈ doc.slots := by
  obtain ⟨block, hblock, hsome⟩ := List.mem_filterMap.1 hframe
  refine Inline.mem_filterMap_slot?.2 (List.mem_flatMap.2 ⟨block, hblock, ?_⟩)
  cases block with
  | inline part => exact absurd hsome (by simp [Block.frame?])
  | frame region =>
    simp only [Block.frame?, Option.some.injEq] at hsome
    exact hsome ▸ hslot

/-- What stands inside `frame` is rendered with `values`. -/
theorem substitute_body {frames : List (Frame ι)} (hcurrent : doc.Current σ values subs)
    (hfresh : doc.Fresh σ values edit subs frames) {frame : Frame ι} (hframe : frame ∈ doc.frames) :
    substitute subs (frame.body.flatMap (Inline.aliased σ)) =
      frame.body.flatMap (Inline.evaluate values) := by
  rw [← Stencil.spell_map_chunk, substitute_spell (hfresh.bodies frame hframe), spell,
    List.flatMap_map, List.flatMap_map]
  refine List.flatMap_congr fun part hpart => Inline.spell_fillAll_chunk fun slot heq => ?_
  exact hcurrent.first slot (slot_mem_of_mem_body hframe (heq ▸ hpart))

/-- No substitution for an iterative region is for `frame`. -/
theorem find?_frame_eq_none (hcurrent : doc.Current σ values subs)
    (hdistinct : (doc.keys.map σ).Nodup) {frame : Frame ι} (hframe : frame ∈ doc.frames) :
    (subs.find? fun sub => sub.aliasName = σ frame.key) = none := by
  refine List.find?_eq_none.2 fun sub hsub => ?_
  obtain ⟨slot, hslot, halias⟩ := hcurrent.known sub hsub
  rw [keys, List.map_append, List.nodup_append] at hdistinct
  have hne := hdistinct.2.2 (σ slot.key) (List.mem_map_of_mem (List.mem_map_of_mem hslot))
    (σ frame.key) (List.mem_map_of_mem (List.mem_map_of_mem hframe))
  simpa [halias] using hne

/-- If the aliases of `frames` are all different, `frame` is found by its own. -/
theorem find?_eq_some_of_nodup {frames : List (Frame ι)}
    (hnodup : (frames.map fun frame => σ frame.key).Nodup) {frame : Frame ι}
    (hframe : frame ∈ frames) :
    (frames.find? fun other => σ other.key = σ frame.key) = some frame := by
  induction frames with
  | nil => exact absurd hframe (by simp)
  | cons first frames ih =>
    obtain ⟨hnew, hrest⟩ := List.nodup_cons.1 hnodup
    rcases List.mem_cons.1 hframe with rfl | hmem
    · exact List.find?_cons_of_pos (by simp)
    · rw [List.find?_cons_of_neg]
      · exact ih hrest hmem
      · intro heq
        exact hnew (List.mem_map.2 ⟨frame, hmem, (of_decide_eq_true heq).symm⟩)

/-- In whatever order `frames` come, the substitution for `frame` is found. -/
theorem find?_results {frames : List (Frame ι)} (hperm : frames.Perm doc.frames)
    (hdistinct : (doc.keys.map σ).Nodup) {frame : Frame ι} (hframe : frame ∈ doc.frames) :
    ((results σ values edit frames).find? fun sub => sub.aliasName = σ frame.key) =
      some ⟨σ frame.key, frame.evaluate values edit⟩ := by
  have hnodup : (frames.map fun frame => σ frame.key).Nodup := by
    rw [keys, List.map_append, List.nodup_append, List.map_map, List.map_map] at hdistinct
    exact ((hperm.map _).nodup_iff).2 hdistinct.2.1
  have hfind := find?_eq_some_of_nodup hnodup ((hperm.mem_iff).2 hframe)
  rw [results, List.find?_map, show ((fun sub : Substitution => decide
    (sub.aliasName = σ frame.key)) ∘ fun frame => ⟨σ frame.key, frame.evaluate values edit⟩) =
      fun other : Frame ι => decide (σ other.key = σ frame.key) from rfl, hfind]
  rfl

/-- The operations of `frames` show what the chains make of the rendered bodies. -/
theorem map_operation_eq_results {frames : List (Frame ι)} (hperm : frames.Perm doc.frames)
    (hcurrent : doc.Current σ values subs) (hfresh : doc.Fresh σ values edit subs frames) :
    (frames.map (Frame.operation σ)).map (fun op =>
      (⟨op.aliasName, op.chain.foldl (fun text name => edit name text)
        (String.ofList (substitute subs op.literal.toList))⟩ : Substitution)) =
      results σ values edit frames := by
  rw [List.map_map, results]
  refine List.map_congr_left fun frame hframe => ?_
  have hbody := substitute_body hcurrent hfresh ((hperm.mem_iff).1 hframe)
  simp only [Function.comp_apply, Frame.operation, String.toList_ofList, hbody]
  rfl

/-- The substitutions `subs` and the `results` fill all holes of `doc`. -/
theorem substitute_aliased {frames : List (Frame ι)} (hperm : frames.Perm doc.frames)
    (hcurrent : doc.Current σ values subs) (hfresh : doc.Fresh σ values edit subs frames) :
    substitute (subs ++ results σ values edit frames) (doc.aliased σ) =
      doc.evaluate values edit := by
  rw [← spell_map_chunk, substitute_spell hfresh.payload, spell, List.flatMap_map,
    List.flatMap_map, evaluate]
  refine List.flatMap_congr fun block hblock => ?_
  cases block with
  | inline part =>
    refine Inline.spell_fillAll_chunk fun slot heq => ?_
    -- a value for an iterative region comes before all results
    have hslot : slot ∈ doc.slots := by
      refine Inline.mem_filterMap_slot?.2 (List.mem_flatMap.2 ⟨_, hblock, ?_⟩)
      exact List.mem_singleton.2 heq.symm
    obtain ⟨sub, hfind, hvalue⟩ := Option.map_eq_some_iff.1 (hcurrent.first slot hslot)
    rw [List.find?_append, hfind, Option.some_or, Option.map_some, hvalue]
  | frame region =>
    -- no value is for a persistent region, and exactly one result is for this one
    have hframe : region ∈ doc.frames := List.mem_filterMap.2 ⟨_, hblock, rfl⟩
    refine spell_fillAll_hole ?_
    rw [List.find?_append, find?_frame_eq_none hcurrent hfresh.distinct hframe,
      find?_results hperm hfresh.distinct hframe]
    rfl

/-- Let `σ` give the aliases that stand in the text of the template in the places of the regions of
`doc`, and let its persistent operations be those of `frames`, which are the persistent regions of
`doc` in any order. If the chains are those of the pure function `edit`, if `subs` substitutes
`values` for the aliases of the iterative regions, and if the aliases are fresh, then the payload is
`doc.evaluate values edit`, whatever the aliases are. -/
theorem render_eq_evaluate {engine : Engine} {frames : List (Frame ι)}
    (htext : engine.template.text = String.ofList (doc.aliased σ))
    (hpersistent : engine.template.persistent = frames.map (Frame.operation σ))
    (hperm : frames.Perm doc.frames)
    (hpure : ∀ frame ∈ doc.frames, engine.transforms.Pure edit frame.chain)
    (hcurrent : doc.Current σ values subs)
    (hfresh : doc.Fresh σ values edit subs frames) :
    (engine.render subs).1 = .ok (String.ofList (doc.evaluate values edit)) := by
  have hops : ∀ op ∈ frames.map (Frame.operation σ), engine.transforms.Pure edit op.chain := by
    intro op hop
    obtain ⟨frame, hframe, rfl⟩ := List.mem_map.1 hop
    exact hpure frame ((hperm.mem_iff).1 hframe)
  -- the two passes are one list of substitutions: first the values, then the results
  have hfilled : (applyPersistent engine.transforms.application subs engine.template.persistent
      (substitute subs engine.template.text.toList) engine.uses).1 =
        .ok (substitute (subs ++ results σ values edit frames) (doc.aliased σ)) := by
    rw [hpersistent, applyPersistent_pure hops, map_operation_eq_results hperm hcurrent hfresh,
      substitute_append, htext, String.toList_ofList]
  rw [Engine.render]
  simp only [hfilled, substitute_aliased hperm hcurrent hfresh]
  rfl

/-- Aliases for the regions of `nested`. -/
def nestedAliases (key : Nat) : String :=
  if key = 0 then "Qa" else if key = 1 then "Qb" else "Qc"

/-- Values for the iterative regions of `nested`. -/
def nestedValues (key : Nat) : String :=
  if key = 0 then "A" else "C"

/-- Substitutions of these values; a second one for the first region comes too late. -/
def nestedSubs : List Substitution :=
  [⟨"Qa", "A"⟩, ⟨"Qa", "B"⟩, ⟨"Qc", "C"⟩]

/-- What the transforms of `nested` make of a text. -/
def nestedEdit (name text : String) : String :=
  if name = "e" then text ++ "!" else "<" ++ text

/-- An engine on `nested`, with transforms that put marks at the ends of a text. -/
def nestedEngine : Engine where
  template :=
    { mode := .single
      text := "Qa ]Qb"
      operations := [⟨"e", "Qa", "1", none⟩, ⟨"x", "Qa", "1", none⟩, ⟨"ex", "Qc", "2", none⟩]
      persistent := [⟨"e|trim", ["e", "trim"], "Qb", "aQc"⟩] }
  sequence := { mode := .single }
  transforms :=
    ⟨.empty, .ofList [("e", ⟨"e", fun _ text => .ok (text ++ "!")⟩),
      ("trim", ⟨"trim", fun _ text => .ok ("<" ++ text)⟩)]⟩
  randomize := false
  bench := .new (.ofWords fun _ => 0)
  uses := .empty
  emitted := 0
  label := none

/-- Of two values for a region with two transforms the first one is shown, and a value inside a
persistent region passes through its chain. -/
theorem render_eq_evaluate_nested :
    nested.Current nestedAliases nestedValues nestedSubs ∧
      nested.Fresh nestedAliases nestedValues nestedEdit nestedSubs nested.frames ∧
      (nestedEngine.render nestedSubs).1 = .ok "A ]<aC!" := by
  have htext : nestedEngine.template.text = String.ofList (nested.aliased nestedAliases) := by
    decide
  have hpersistent : nestedEngine.template.persistent =
      nested.frames.map (Frame.operation nestedAliases) := by decide
  have hpure : ∀ frame ∈ nested.frames, nestedEngine.transforms.Pure nestedEdit frame.chain := by
    intro frame hframe name hname
    obtain rfl : frame = ⟨1, ["e", "trim"], [.text ['a'], .slot ⟨2, ["ex"], ['2']⟩]⟩ :=
      List.mem_singleton.1 hframe
    simp only [List.mem_cons, List.not_mem_nil, or_false] at hname
    rcases hname with rfl | rfl
    · exact ⟨⟨"e", fun _ text => .ok (text ++ "!")⟩, rfl, fun _ _ => rfl⟩
    · exact ⟨⟨"trim", fun _ text => .ok ("<" ++ text)⟩, rfl, fun _ _ => rfl⟩
  have hcurrent : nested.Current nestedAliases nestedValues nestedSubs := ⟨by decide, by decide⟩
  have hfresh : nested.Fresh nestedAliases nestedValues nestedEdit nestedSubs nested.frames :=
    ⟨by decide, by decide, by decide⟩
  have hpayload : String.ofList (nested.evaluate nestedValues nestedEdit) = "A ]<aC!" := by decide
  refine ⟨hcurrent, hfresh, ?_⟩
  rw [render_eq_evaluate htext hpersistent (List.Perm.refl _) hpure hcurrent hfresh, hpayload]

end Document

end Stencil
