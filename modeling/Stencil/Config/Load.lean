import Stencil.Config.Decode
import Stencil.Data.Toml.Document

/-!
# Configuration files

A configuration file holds a configuration in TOML.

Main definitions:

* `Config.load`: the configuration in a file, with its parts checked.
-/

namespace Stencil

/-- Why there is no configuration in a file. -/
inductive LoadError where
  /-- The file cannot be read. -/
  | unreadable (path : Path) (error : FileError)
  /-- The text of the file is no configuration. -/
  | malformed (path : Path)
  /-- The parts of the configuration do not fit together. -/
  | invalid (path : Path) (error : ConfigError)
deriving DecidableEq, Repr

/-- The text of a load error. -/
def LoadError.message : LoadError → String
  | unreadable path error => s!"read {path.text}: {error.message}"
  | malformed path => s!"parse {path.text}"
  | invalid path error => s!"validate {path.text}: {error.message}"

namespace Config

/-- The configuration that a text in TOML stands for. -/
def ofToml? (source : String) : Option Config :=
  (Data.Toml.document? source).bind (ofValue? .toml)

/-- The configuration in a file. -/
def load (files : Files) (path : Path) : Except LoadError Config :=
  match files.read path with
  | .error error => .error (.unreadable path error)
  | .ok source =>
    match ofToml? source with
    | none => .error (.malformed path)
    | some config =>
      match config.validate with
      | .error error => .error (.invalid path error)
      | .ok () => .ok config

end Config

end Stencil
