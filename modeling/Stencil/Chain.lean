import Stencil.Error
import Stencil.Substitution

/-!
# Persistent chains

The text of a persistent region, once the aliases inside it are replaced, passes through the
transforms of its chain from left to right; the outcome takes the place of the alias of the region
in the payload. Every chain runs once for a payload, whether or not its alias occurs there. The
run of a transform may depend on a state that the caller threads through all runs.

Main definitions:

* `runChain`: a text passed through a chain.
* `applyPersistent`: all persistent regions of a payload filled.
-/

namespace Stencil

/-- Runs the persistent transform of a name on a text. -/
abbrev Application (σ : Type) := String → String → σ → Except RunError String × σ

variable {σ : Type}

/-- Passes a text through a chain of transforms. -/
def runChain (apply : Application σ) : List String → String → σ → Except RunError String × σ
  | [], text, s => (.ok text, s)
  | name :: names, text, s =>
    match apply name text s with
    | (.error error, s) => (.error error, s)
    | (.ok text, s) => runChain apply names text s

/-- Fills the persistent regions of a payload, one after the other. -/
def applyPersistent (apply : Application σ) (subs : List Substitution) :
    List PersistentOperation → List Char → σ → Except RunError (List Char) × σ
  | [], payload, s => (.ok payload, s)
  | op :: ops, payload, s =>
    -- the text of the region is its own: the payload has no part in it
    match runChain apply op.chain (String.ofList (substitute subs op.literal.toList)) s with
    | (.error error, s) => (.error error, s)
    | (.ok value, s) =>
      applyPersistent apply subs ops (Substitution.apply ⟨op.aliasName, value⟩ payload) s

end Stencil
