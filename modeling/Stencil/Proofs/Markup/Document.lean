import Stencil.Template
import Stencil.Transform

/-!
# Documents: templates as trees

A document is a template before it is written: a row of texts, iterative regions and persistent
regions, with texts and iterative regions inside the persistent ones. Each region has a key, which
tells it apart from the others and has no part in how the document is written.

Main definitions:

* `Slot`, `Frame`, `Document`: iterative regions, persistent regions, and rows of both and of texts.
* `Document.markup`: the document, written with tags.
* `Document.aliased`: the document with an alias in the place of each region.
* `Document.WellFormed`, `Document.Legible`: which documents can be read back, and which come apart
  into their regions at least.
-/

namespace Stencil

/-- An iterative region of a document. -/
structure Slot (ι : Type) where
  /-- What tells the region apart. -/
  key : ι
  /-- The transforms that its heading names. -/
  names : List String
  /-- The text inside the region. -/
  literal : List Char
deriving DecidableEq, Repr

/-- What stands inside persistent regions. -/
inductive Inline (ι : Type) where
  /-- Text without tags. -/
  | text (chars : List Char)
  /-- An iterative region. -/
  | slot (region : Slot ι)
deriving DecidableEq, Repr

/-- A persistent region of a document. -/
structure Frame (ι : Type) where
  /-- What tells the region apart. -/
  key : ι
  /-- The transforms that its heading names, in the order in which they are applied. -/
  chain : List String
  /-- What stands inside the region. -/
  body : List (Inline ι)
deriving DecidableEq, Repr

/-- What a document is made of. -/
inductive Block (ι : Type) where
  /-- Text or an iterative region. -/
  | inline (part : Inline ι)
  /-- A persistent region. -/
  | frame (region : Frame ι)
deriving DecidableEq, Repr

/-- A template as a tree. -/
structure Document (ι : Type) where
  /-- The parts of the document, in order. -/
  blocks : List (Block ι)
deriving DecidableEq, Repr

variable {ι : Type}

namespace Family

/-- The character between the names of a heading of `family`. Families without such headings have it
for headings of one name. -/
def joint (family : Family) : Char :=
  family.separator?.getD ';'

end Family

namespace Slot

/-- The names of `slot` as its heading lists them. -/
def heading (family : Family) (slot : Slot ι) : List Char :=
  List.intercalate [family.joint] (slot.names.map String.toList)

/-- The region `slot`, written with the tags of `family`. -/
def markup (family : Family) (slot : Slot ι) : List Char :=
  '[' :: family.sigil :: slot.heading family ++ ']' :: slot.literal ++ family.closeTag

/-- The operations of the iterative region `slot`, for which `σ` gives the alias: one for each of
its names. -/
def operations (σ : ι → String) (slot : Slot ι) : List Operation :=
  slot.names.map fun name => ⟨name, σ slot.key, String.ofList slot.literal, none⟩

/-- The region can be read back: its heading lists registered names, as many as the family allows,
and no tag starts inside it. -/
structure Sound (family : Family) (registered : List String) (slot : Slot ι) : Prop where
  /-- The heading names a transform. -/
  names_ne_nil : slot.names ≠ []
  /-- It names registered transforms only. -/
  registered : ∀ name ∈ slot.names, name ∈ registered
  /-- It names one transform, in a family whose headings have no separators. -/
  alone : family.separator? = none → slot.names.length = 1
  /-- No tag starts inside the region. -/
  literal : '[' ∉ slot.literal

end Slot

namespace Inline

/-- The iterative region, if it is one. -/
def slot? : Inline ι → Option (Slot ι)
  | .text _ => none
  | .slot region => some region

/-- A part, written with the tags of `family`. -/
def markup (family : Family) : Inline ι → List Char
  | .text chars => chars
  | .slot region => region.markup family

/-- A part, with the alias that `σ` gives in the place of a region. -/
def aliased (σ : ι → String) : Inline ι → List Char
  | .text chars => chars
  | .slot region => (σ region.key).toList

/-- The part can be read back: a text has no brackets, and a region is sound. -/
def Sound (family : Family) (registered : List String) : Inline ι → Prop
  | .text chars => '[' ∉ chars
  | .slot region => region.Sound family registered

/-- The iterative regions among `parts` are the slots that `slot?` finds. -/
theorem mem_filterMap_slot? {parts : List (Inline ι)} {slot : Slot ι} :
    slot ∈ parts.filterMap slot? ↔ Inline.slot slot ∈ parts := by
  rw [List.mem_filterMap]
  constructor
  · rintro ⟨part, hpart, hsome⟩
    cases part with
    | text chars => exact absurd hsome (by simp [slot?])
    | slot region =>
      simp only [slot?, Option.some.injEq] at hsome
      exact hsome ▸ hpart
  · intro h
    exact ⟨_, h, rfl⟩

end Inline

namespace Frame

/-- The persistent region `frame` as a region of plain text, in which `write` tells how the parts
inside are written. -/
def toSlot (write : Inline ι → List Char) (frame : Frame ι) : Slot ι :=
  ⟨frame.key, frame.chain, frame.body.flatMap write⟩

/-- The operation of the persistent region `frame`; `σ` gives its alias and those of the regions
inside. -/
def operation (σ : ι → String) (frame : Frame ι) : PersistentOperation where
  binding := "|".intercalate frame.chain
  chain := frame.chain
  aliasName := σ frame.key
  literal := String.ofList (frame.body.flatMap (Inline.aliased σ))

end Frame

namespace Block

/-- The persistent region, if it is one. -/
def frame? : Block ι → Option (Frame ι)
  | .inline _ => none
  | .frame region => some region

/-- The texts and iterative regions of a block, those inside a persistent region included. -/
def parts : Block ι → List (Inline ι)
  | .inline part => [part]
  | .frame region => region.body

/-- A block, written with tags; `family` is that of the iterative regions. -/
def markup (family : Family) : Block ι → List Char
  | .inline part => part.markup family
  | .frame region => (region.toSlot (Inline.markup family)).markup .persistent

/-- A block, with the alias that `σ` gives in the place of a region. -/
def aliased (σ : ι → String) : Block ι → List Char
  | .inline part => part.aliased σ
  | .frame region => (σ region.key).toList

end Block

namespace Document

/-- The texts and iterative regions of `doc`, in order. -/
def parts (doc : Document ι) : List (Inline ι) :=
  doc.blocks.flatMap Block.parts

/-- The iterative regions of `doc`, in order. -/
def slots (doc : Document ι) : List (Slot ι) :=
  doc.parts.filterMap Inline.slot?

/-- The persistent regions of `doc`, in order. -/
def frames (doc : Document ι) : List (Frame ι) :=
  doc.blocks.filterMap Block.frame?

/-- The keys of all regions of `doc`. -/
def keys (doc : Document ι) : List ι :=
  doc.slots.map (·.key) ++ doc.frames.map (·.key)

/-- The document, written with tags; `family` is that of the iterative regions. -/
def markup (family : Family) (doc : Document ι) : List Char :=
  doc.blocks.flatMap (Block.markup family)

/-- The document `doc`, with the alias that `σ` gives in the place of each region. -/
def aliased (σ : ι → String) (doc : Document ι) : List Char :=
  doc.blocks.flatMap (Block.aliased σ)

/-- The mode of `doc`: that of the `family` of its iterative regions, if it has any. -/
def mode (family : Family) (doc : Document ι) : Mode :=
  if doc.slots.isEmpty then .none else Mode.ofFamily family

/-- The document can be read back. -/
structure WellFormed (family : Family) (names : TransformNames) (doc : Document ι) : Prop where
  /-- The iterative regions are of an iterative family. -/
  iterative : family ∈ Family.iterative
  /-- The registered names can be written in headings. -/
  valid : ∀ name ∈ names.iterative ++ names.persistent, Transforms.nameFlaw? name = none
  /-- No tag starts in a text, and the iterative regions are sound. -/
  parts : ∀ part ∈ doc.parts, part.Sound family names.iterative
  /-- The persistent regions name transforms, registered ones only. -/
  chains : ∀ frame ∈ doc.frames,
    frame.chain ≠ [] ∧ ∀ name ∈ frame.chain, name ∈ names.persistent
  /-- No transform is named twice, in a family in which each may bind one region only. -/
  once : family.bindsOnce = true → (doc.slots.flatMap (·.names)).Nodup
  /-- No two regions have the same key. -/
  keys : doc.keys.Nodup

/-- The document comes apart into its regions when it is read, some of which may then be refused. -/
structure Legible (family : Family) (names : TransformNames) (doc : Document ι) : Prop where
  /-- The iterative regions are of an iterative family. -/
  iterative : family ∈ Family.iterative
  /-- The registered names can be written in headings. -/
  valid : ∀ name ∈ names.iterative ++ names.persistent, Transforms.nameFlaw? name = none
  /-- No tag starts in a text, and the iterative regions are sound. -/
  parts : ∀ part ∈ doc.parts, part.Sound family names.iterative
  /-- The persistent regions name transforms, registered ones only. -/
  chains : ∀ frame ∈ doc.frames,
    frame.chain ≠ [] ∧ ∀ name ∈ frame.chain, name ∈ names.persistent

theorem WellFormed.legible {family : Family} {names : TransformNames} {doc : Document ι}
    (h : doc.WellFormed family names) : doc.Legible family names :=
  ⟨h.iterative, h.valid, h.parts, h.chains⟩

/-- A document with a region inside another one, and with names that start `end` or each other. -/
def nested : Document Nat where
  blocks :=
    [.inline (.slot ⟨0, ["e", "x"], ['1']⟩), .inline (.text [' ', ']']),
      .frame ⟨1, ["e", "trim"], [.text ['a'], .slot ⟨2, ["ex"], ['2']⟩]⟩]

example :
    String.ofList (nested.markup .single) = "[+e;x]1[+end] ][@e|trim]a[+ex]2[+end][@end]" := by
  decide

/-- Names for `nested`. -/
def nestedNames : TransformNames :=
  ⟨["e", "ex", "x"], ["e", "trim"]⟩

/-- A pool whose first aliases consist of one letter each. -/
def nestedPool : AliasPool where
  generator := .ofWords fun place => (place / 32).toUInt64 <<< 60

end Document

end Stencil
