import Stencil.Text.Blank
import Stencil.Text.Casing
import Stencil.Transform

/-!
# Operations on texts

The operations that a configuration can name for persistent transforms. They always succeed and
depend on the text alone.

Main definitions:

* `TextOp`: the operations; `TextOp.apply` applies one.
* `TextOp.edit`: the persistent transform that applies several from left to right.
-/

namespace Stencil

/-- An operation on a text. -/
inductive TextOp where
  /-- To upper case. -/
  | upper
  /-- To lower case. -/
  | lower
  /-- Takes the blanks from both ends. -/
  | trim
  /-- The characters from last to first. -/
  | reverse
  /-- The bytes of the text in base sixteen. -/
  | hex
deriving DecidableEq, Repr

namespace TextOp

/-- All operations. -/
def all : List TextOp := [upper, lower, trim, reverse, hex]

/-- The name of an operation. -/
def label : TextOp → String
  | upper => "upper"
  | lower => "lower"
  | trim => "trim"
  | reverse => "reverse"
  | hex => "hex"

/-- The operation with a name. -/
def ofLabel? (name : String) : Option TextOp :=
  all.find? (·.label == name)

/-- The two digits of a byte in base sixteen, in lower case. -/
def hexByte (byte : UInt8) : List Char :=
  [Nat.digitChar (byte.toNat / 16), Nat.digitChar (byte.toNat % 16)]

/-- Applies an operation. -/
def apply : TextOp → List Char → List Char
  | upper, text => Text.upper text
  | lower, text => Text.lower text
  | trim, text => Text.trim text
  | reverse, text => text.reverse
  | hex, text => text.flatMap fun c => (String.utf8EncodeChar c).flatMap hexByte

/-- Applies operations from left to right. -/
def applyAll (ops : List TextOp) (text : String) : String :=
  String.ofList (ops.foldl (fun text op => op.apply text) text.toList)

/-- The texts after each of some operations, applied from left to right. -/
def stages : List TextOp → String → List String
  | [], _ => []
  | op :: ops, text =>
    let text := applyAll [op] text
    text :: stages ops text

/-- The persistent transform that applies operations from left to right. -/
def edit (ops : List TextOp) : PersistentFunction := fun _ text =>
  .ok (applyAll ops text)

end TextOp

end Stencil
