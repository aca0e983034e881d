import Stencil.Family
import Stencil.Path

/-!
# What can go wrong

Errors are causes; the text of each is given by one function. A setup error is found while
transforms are registered or a template is read, and no engine comes about. A run error ends a
sequence of payloads.

Main definitions:

* `SetupError`, `RunError`: the two kinds of errors.
* `FileError`: why a file cannot be read.
* `Failure`: what a step function or a persistent transform gives as its reason.
-/

namespace Stencil

/-- Why a name cannot be registered. -/
inductive NameFlaw where
  /-- The name is empty. -/
  | empty
  /-- The name would read as a close tag. -/
  | reserved
  /-- The name has a blank or one of the characters that tags and headings are made of. -/
  | character
deriving DecidableEq, Repr

/-- The text of a flaw. -/
def NameFlaw.message : NameFlaw → String
  | empty => "must not be empty"
  | reserved => "'end' is reserved for close tags"
  | character => "must not contain whitespace or any of []|;"

/-- Malformed markup, or a registration that cannot be made. -/
inductive SetupError where
  /-- A region that opens with `opening` is never closed. -/
  | missingEndTag (opening close : String)
  /-- The open tag that starts with `opening` does not end before the region does. -/
  | missingStartTerminator (opening : String)
  /-- The close tags of two iterative families occur. -/
  | mixedFamilies (first second : Family)
  /-- A transform binds a second region where it may bind only one. -/
  | duplicateBinding (family : Family) (transform : String)
  /-- A heading that names several transforms names one that is not registered. -/
  | unknownTransform (family : Family) (name heading : String)
  /-- Every candidate for an alias was refused. -/
  | noFreshAlias
  /-- A manifest does not list the keyword. -/
  | unknownCorpus (keyword : String) (valid : List String)
  /-- A range that would not move. -/
  | zeroStep
  /-- The name is taken. -/
  | duplicateTransform (name : String)
  /-- The name cannot be written in a heading. -/
  | invalidName (name : String) (flaw : NameFlaw)
  /-- There is no iterative transform to clone. -/
  | unknownCloneSource (source : String)
deriving DecidableEq, Repr

/-- The text of a setup error. -/
def SetupError.message : SetupError → String
  | missingEndTag opening close => s!"missing end tag {close} for {opening}"
  | missingStartTerminator opening => s!"missing start tag terminator ']' for {opening}"
  | mixedFamilies first second =>
    s!"cannot mix iterative families: {first.label} and {second.label}"
  | duplicateBinding family transform =>
    s!"transform '{transform}' is bound more than once in {family.label} mode"
  | unknownTransform family name heading =>
    s!"unknown {family.label} transform '{name}' in annotation [{heading}]"
  | noFreshAlias => "no fresh alias was drawn"
  | unknownCorpus keyword valid =>
    s!"unknown corpus '{keyword}' (valid: " ++ ", ".intercalate valid ++ ")"
  | zeroStep => "range step must not be zero"
  | duplicateTransform name => s!"transform '{name}' is already registered"
  | invalidName name flaw => s!"invalid transform name '{name}': {flaw.message}"
  | unknownCloneSource source => s!"cannot clone unknown iterative transform '{source}'"

/-- Why a file cannot be read as text. -/
inductive FileError where
  /-- There is nothing at the path. -/
  | notFound
  /-- The path leads through something that is not a directory. -/
  | notDirectory
  /-- There is a directory at the path. -/
  | isDirectory
  /-- The bytes are not UTF-8. -/
  | notUtf8
  /-- Anything else, in the words of the system. -/
  | other (text : String)
deriving DecidableEq, Repr

/-- The text of a file error. -/
def FileError.message : FileError → String
  | notFound => "No such file or directory (os error 2)"
  | notDirectory => "Not a directory (os error 20)"
  | isDirectory => "Is a directory (os error 21)"
  | notUtf8 => "stream did not contain valid UTF-8"
  | other text => text

/-- The reason for a failure, from the outermost cause to the innermost. -/
structure Failure where
  /-- The causes, outermost first. -/
  causes : List String
deriving DecidableEq, Repr

/-- The text of a failure: its causes, joined by colons. -/
def Failure.message (failure : Failure) : String :=
  ": ".intercalate failure.causes

/-- Why a transform cannot be run at all. -/
inductive Misconfiguration where
  /-- It iterates over observed words, and nothing supplies them. -/
  | noWordSource
  /-- It iterates over observed words, and their source failed. -/
  | wordsUnavailable (failure : Failure)
  /-- No iterative transform has the name. -/
  | noIterativeTransform
  /-- No persistent transform has the name. -/
  | noPersistentTransform
deriving DecidableEq, Repr

/-- The text of a misconfiguration. -/
def Misconfiguration.message : Misconfiguration → String
  | noWordSource => "no observed-word source was supplied"
  | wordsUnavailable failure => s!"observed words unavailable: {failure.message}"
  | noIterativeTransform => "iterative transform is not registered"
  | noPersistentTransform => "persistent transform is not registered"

/-- The regions among which an instance of a transform is looked for. -/
inductive InstanceKind where
  /-- All regions. -/
  | bound
  /-- The regions that vary. -/
  | iterative
deriving DecidableEq, Repr

/-- The word for the regions in messages. -/
def InstanceKind.label : InstanceKind → String
  | bound => "bound"
  | iterative => "iterative"

/-- What can end a sequence of payloads, or keep a look-up from being answered. -/
inductive RunError where
  /-- The transform cannot be run. -/
  | misconfigured (transform : String) (reason : Misconfiguration)
  /-- A wordlist of the transform cannot be read. -/
  | unreadableWordlist (transform : String) (path : Path) (error : FileError)
  /-- The transform gave up. -/
  | stepFailed (transform : String) (failure : Failure)
  /-- The transform binds no region. -/
  | noInstance (kind : InstanceKind) (transform : String)
  /-- The transform binds several regions. -/
  | severalInstances (transform : String) (count : Nat)
  /-- Persistent transforms do not show values. -/
  | persistentOutput (transform : String)
deriving DecidableEq, Repr

/-- The text of a run error. -/
def RunError.message : RunError → String
  | misconfigured transform reason =>
    s!"transform '{transform}' is misconfigured: {reason.message}"
  | unreadableWordlist transform path error =>
    s!"transform '{transform}' could not read wordlist {path.text}: {error.message}"
  | stepFailed transform failure => s!"transform '{transform}' failed: {failure.message}"
  | noInstance kind transform => s!"no {kind.label} instance of transform '{transform}'"
  | severalInstances transform count =>
    s!"transform '{transform}' has {count} instances; lookups need exactly one"
  | persistentOutput transform =>
    s!"transform '{transform}' is persistent and has no cached output"

end Stencil
