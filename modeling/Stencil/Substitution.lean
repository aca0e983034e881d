import Stencil.Text.Search

/-!
# Operations and substitutions

Every region of a template gives rise to operations: each ties an alias to a transform and to the
text that stood in the region. A substitution puts a value in the place of an alias. A list of
substitutions is applied in order, so of several for one alias the first one counts.

Main definitions:

* `Operation`, `PersistentOperation`: what a region asks for.
* `Substitution`, `substitute`: aliases replaced by values.
-/

namespace Stencil

/-- A region bound to an iterative transform. Several operations share an alias when a heading
names several transforms. -/
structure Operation where
  /-- The transform that gives the values. -/
  transform : String
  /-- The alias in the place of the region. -/
  aliasName : String
  /-- The text inside the region. -/
  literal : String
  /-- The value that was shown last, if any was. -/
  cached : Option String := none
deriving DecidableEq, Repr

/-- A region whose text passes through persistent transforms. -/
structure PersistentOperation where
  /-- The heading, without the blanks around it. -/
  binding : String
  /-- The transforms, in the order in which they are applied. -/
  chain : List String
  /-- The alias in the place of the region. -/
  aliasName : String
  /-- The text inside the region. -/
  literal : String
deriving DecidableEq, Repr

/-- A value for an alias. -/
structure Substitution where
  /-- The alias. -/
  aliasName : String
  /-- The value in its place. -/
  value : String
deriving DecidableEq, Repr

namespace Substitution

/-- The text with every occurrence of the alias replaced. -/
def apply (sub : Substitution) (text : List Char) : List Char :=
  Text.replace sub.aliasName.toList sub.value.toList text

end Substitution

/-- The text after all substitutions, one after the other. -/
def substitute (subs : List Substitution) (text : List Char) : List Char :=
  subs.foldl (fun text sub => sub.apply text) text

namespace Operation

/-- The operation shows the text of its region. -/
def asWritten (op : Operation) : Substitution :=
  ⟨op.aliasName, op.literal⟩

/-- The operation shows the value that it holds, or else the text of its region. -/
def current (op : Operation) : Substitution :=
  ⟨op.aliasName, op.cached.getD op.literal⟩

/-- The operation holds a value. -/
def withValue (op : Operation) (value : String) : Operation :=
  { op with cached := some value }

/-- The operation holds the text of its region. -/
def withLiteral (op : Operation) : Operation :=
  op.withValue op.literal

@[simp]
theorem transform_withValue (op : Operation) (value : String) :
    (op.withValue value).transform = op.transform := rfl

@[simp]
theorem aliasName_withValue (op : Operation) (value : String) :
    (op.withValue value).aliasName = op.aliasName := rfl

@[simp]
theorem literal_withValue (op : Operation) (value : String) :
    (op.withValue value).literal = op.literal := rfl

@[simp]
theorem cached_withValue (op : Operation) (value : String) :
    (op.withValue value).cached = some value := rfl

/-- Of two values that an operation is given, the last one is held. -/
@[simp]
theorem withValue_withValue (op : Operation) (value later : String) :
    (op.withValue value).withValue later = op.withValue later := rfl

end Operation

@[simp]
theorem substitute_nil (text : List Char) : substitute [] text = text := rfl

@[simp]
theorem substitute_cons (sub : Substitution) (subs : List Substitution) (text : List Char) :
    substitute (sub :: subs) text = substitute subs (sub.apply text) := rfl

/-- Substitutions in two lists apply one list after the other. -/
theorem substitute_append (first second : List Substitution) (text : List Char) :
    substitute (first ++ second) text = substitute second (substitute first text) := by
  simp [substitute]

end Stencil
