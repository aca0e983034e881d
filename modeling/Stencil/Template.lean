import Stencil.Mode
import Stencil.Region
import Stencil.Substitution

/-!
# Templates

A template is read in two passes: first the regions of its iterative family, if it has one, then
its persistent regions. Each pass looks for one registered name after the other, in the order of
the names given, and every pass works on the text that the one before has left. So a region that
lies inside a persistent one is replaced by its alias before the persistent region is read.

Main definitions:

* `TransformNames.of`: the names that the headings of a family may use.
* `Template`: a text with aliases, and the operations that belong to them.
* `Template.parse`: reads a template.
-/

namespace Stencil

/-- The names that headings may use. -/
structure TransformNames where
  /-- The names of the iterative transforms, in the order in which they are looked for. -/
  iterative : List String
  /-- The names of the persistent transforms, in the order in which they are looked for. -/
  persistent : List String

namespace TransformNames

/-- The names that the headings of `family` may use. -/
def of (names : TransformNames) : Family → List String
  | .single | .lockstep | .cross => names.iterative
  | .persistent => names.persistent

theorem of_iterative (names : TransformNames) {family : Family} (h : family ∈ Family.iterative) :
    names.of family = names.iterative := by
  cases family <;> first | rfl | exact absurd h (by decide)

end TransformNames

/-- A text with aliases in the place of its regions, and the operations of the regions. -/
structure Template where
  /-- How the regions combine. -/
  mode : Mode
  /-- The text with aliases. -/
  text : String
  /-- The operations of the iterative regions. -/
  operations : List Operation
  /-- The operations of the persistent regions. -/
  persistent : List PersistentOperation
deriving DecidableEq, Repr

namespace Region

/-- The operations of an iterative region, one for each name. -/
def operations (region : Region) : List Operation :=
  region.names.map fun name => ⟨name, region.aliasName, region.literal, none⟩

/-- The operation of a persistent region. -/
def persistentOperation (region : Region) : PersistentOperation where
  binding := String.ofList (Text.trim region.heading.toList)
  chain := region.names
  aliasName := region.aliasName
  literal := region.literal

end Region

namespace Template

/-- Scans a text for one name after the other. -/
def scanNames (family : Family) (registered : List String) (avoid : List Char) :
    List String → Scanned → Except SetupError Scanned
  | [], scanned => .ok scanned
  | name :: names, scanned =>
    match Search.scan ⟨family, name, registered, avoid⟩ scanned.regions scanned.pool
        scanned.text with
    | .error error => .error error
    | .ok found =>
      scanNames family registered avoid names
        { found with regions := scanned.regions ++ found.regions }

/-- Scans a text for the regions of a family; without a family there are none. -/
def scanFamily (family? : Option Family) (names : List String) (avoid : List Char)
    (pool : AliasPool) (text : List Char) : Except SetupError Scanned :=
  match family? with
  | none => .ok ⟨text, [], pool⟩
  | some family => scanNames family names avoid names ⟨text, [], pool⟩

/-- Reads a template, with aliases from `pool`. -/
def parse (source : String) (names : TransformNames) (pool : AliasPool) :
    Except SetupError (Template × AliasPool) :=
  match Mode.detect source.toList with
  | .error error => .error error
  | .ok mode =>
    match scanFamily mode.family? names.iterative source.toList pool source.toList with
    | .error error => .error error
    | .ok varying =>
      match scanFamily (some .persistent) names.persistent source.toList varying.pool
          varying.text with
      | .error error => .error error
      | .ok lasting =>
        .ok ({ mode
               text := String.ofList lasting.text
               operations := varying.regions.flatMap Region.operations
               persistent := lasting.regions.map Region.persistentOperation }, lasting.pool)

/-- The substitutions that show every region as it was written. -/
def asWritten (template : Template) : List Substitution :=
  template.operations.map Operation.asWritten

end Template

end Stencil
