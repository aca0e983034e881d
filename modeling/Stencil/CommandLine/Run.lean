import Stencil.CommandLine.Arguments
import Stencil.Config.Load
import Stencil.Data.Json
import Stencil.Engine

/-!
# Running commands

A command reads a configuration and a template, and writes payloads, a preview or what is known of
the template. What was written before an error stays written.

Main definitions:

* `Outcome`: the exit code of a command, what it writes, and its error message.
* `Request.run`: the outcome of a request.
* `Request.wanted`: the files that a request reads.
-/

namespace Stencil

open Data

/-- Why a command fails. -/
inductive CommandError where
  /-- There is no configuration. -/
  | load (error : LoadError)
  /-- The configuration declares no transforms. -/
  | config (error : ConfigError)
  /-- A file cannot be read. -/
  | unreadable (path : Path) (error : FileError)
  /-- The template cannot be read with the transforms declared. -/
  | template (path : Path) (error : SetupError)
  /-- A payload cannot be made. -/
  | run (error : RunError)
deriving DecidableEq, Repr

/-- The text of a command error. -/
def CommandError.message : CommandError → String
  | load error => error.message
  | config error => error.message
  | unreadable path error => s!"read {path.text}: {error.message}"
  | template path error => s!"parse template {path.text}: {error.message}"
  | run error => error.message

/-- How a command ends. -/
inductive ExitCode where
  /-- All is well. -/
  | ok
  /-- There was an error. -/
  | invalid
  /-- There were no payloads, or the command line cannot be followed. -/
  | empty
deriving DecidableEq, Repr

/-- The number of an exit code. -/
def ExitCode.number : ExitCode → Nat
  | ok => 0
  | invalid => 1
  | empty => 2

/-- What comes of a command. -/
structure Outcome where
  /-- How the command ends. -/
  code : ExitCode
  /-- What it writes. -/
  output : String
  /-- Its error message, if there was an error. -/
  message : Option String := none
deriving DecidableEq, Repr

namespace Outcome

/-- Nothing but an error. -/
def ofError (error : CommandError) : Outcome :=
  ⟨.invalid, "", some error.message⟩

end Outcome

namespace Payload

/-- The payload as a table. -/
def toValue (payload : Payload) : Value :=
  .table [("index", .integer payload.index),
    ("label", payload.label.elim .null .text),
    ("body", .text payload.body)]

/-- The line that is written for a payload. -/
def line (json : Bool) (payload : Payload) : String :=
  (if json then payload.toValue.compact else payload.body) ++ "\n"

end Payload

namespace Operation

/-- The operation as a table. -/
def toValue (op : Operation) : Value :=
  .table [("transform", .text op.transform), ("alias", .text op.aliasName),
    ("literal", .text op.literal), ("cached", op.cached.elim .null .text)]

end Operation

namespace PersistentOperation

/-- The operation as a table. -/
def toValue (op : PersistentOperation) : Value :=
  .table [("binding", .text op.binding), ("chain", .list (op.chain.map .text)),
    ("alias", .text op.aliasName), ("literal", .text op.literal)]

end PersistentOperation

namespace Template

/-- What is known of a template, as a table. -/
def toValue (template : Template) : Value :=
  .table [("mode", .text template.mode.label), ("template", .text template.text),
    ("operations", .list (template.operations.map Operation.toValue)),
    ("persistent", .list (template.persistent.map PersistentOperation.toValue))]

/-- The text of a template file. A line break at its end does not belong to the template. -/
def ofFile (contents : String) : String :=
  match contents.toList.reverse with
  | '\n' :: '\r' :: rest => String.ofList rest.reverse
  | '\n' :: rest => String.ofList rest.reverse
  | _ => contents

end Template

/-- The name and the version of the program. -/
def versionText : String := "tagforge 0.1.0\n"

/-- How the program is used. -/
def helpText : String :=
  "Tag-driven payload generator\n\n" ++
  "Usage: tagforge [-v] generate TEMPLATE --config FILE [--limit N] [--randomize] [--seed N] " ++
  "[--json]\n" ++
  "       tagforge [-v] preview TEMPLATE --config FILE\n" ++
  "       tagforge [-v] inspect TEMPLATE --config FILE\n" ++
  "       tagforge [-v] corpus DIRECTORY\n" ++
  "       tagforge --version\n"

/-- How many payloads are made where no limit is given. -/
def unlimited : Nat := UInt64.size - 1

/-- An engine, and what its transforms draw on. -/
structure Session where
  /-- The engine. -/
  engine : Engine
  /-- What its transforms draw on. -/
  supplies : Supplies

namespace Session

/-- The engine for a template with the transforms of a configuration. The random choices come from
the seed given, else from that of the configuration, else from `entropy`. -/
def prepare (files : Files) (entropy : UInt64) (template config : Path) (randomize : Bool)
    (seed : Option UInt64) : Except CommandError Session :=
  match Config.load files config with
  | .error error => .error (.load error)
  | .ok settings =>
    let base := Config.directoryOf config
    match settings.build files base with
    | .error error => .error (.config error)
    | .ok transforms =>
      match files.read template with
      | .error error => .error (.unreadable template error)
      | .ok contents =>
        let generator := Generator.seeded ((seed.or settings.seed).getD entropy)
        match Engine.build (Template.ofFile contents) transforms
            (randomize || settings.randomizeLists) generator with
        | .error error => .error (.template template error)
        | .ok engine => .ok ⟨engine, settings.supplies files base⟩

end Session

namespace Request

/-- Writes payloads, one a line. -/
def runGenerate (session : Session) (limit : Option Nat) (json : Bool) : Outcome :=
  let taken := session.engine.take session.supplies (limit.getD unlimited)
  -- the payloads before an error stay written
  let output := String.join (taken.1.map (Payload.line json))
  match taken.2 with
  | some error => ⟨.invalid, output, some (CommandError.run error).message⟩
  | none => ⟨if taken.1.isEmpty then .empty else .ok, output, none⟩

/-- Writes the preview of a template. -/
def runPreview (session : Session) : Outcome :=
  match session.engine.preview.1 with
  | .error error => .ofError (.run error)
  | .ok text => ⟨.ok, text ++ "\n", none⟩

/-- Writes what is known of a template. -/
def runInspect (session : Session) : Outcome :=
  ⟨.ok, session.engine.template.toValue.pretty 0 ++ "\n", none⟩

/-- Writes the keywords of a corpus, one a line. -/
def runCorpus (files : Files) (directory : Path) : Outcome :=
  match Manifest.load files directory with
  | .error error => .ofError (.unreadable (Manifest.pathIn directory) error)
  | .ok manifest => ⟨.ok, String.join (manifest.keywords.map (· ++ "\n")), none⟩

/-- The outcome of a request. -/
def run (request : Request) (files : Files) (entropy : UInt64) : Outcome :=
  match request with
  | .version => ⟨.ok, versionText, none⟩
  | .help => ⟨.ok, helpText, none⟩
  | .corpus directory => runCorpus files directory
  | .generate template config limit randomize seed json =>
    match Session.prepare files entropy template config randomize seed with
    | .error error => .ofError error
    | .ok session => runGenerate session limit json
  | .preview template config =>
    match Session.prepare files entropy template config false none with
    | .error error => .ofError error
    | .ok session => runPreview session
  | .inspect template config =>
    match Session.prepare files entropy template config false none with
    | .error error => .ofError error
    | .ok session => runInspect session

/-- The files that the transforms of a configuration read. -/
def wantedBy (files : Files) (config : Path) : List Path :=
  match Config.load files config with
  | .error _ => []
  | .ok settings =>
    let base := Config.directoryOf config
    let wordlists :=
      match settings.build files base with
      | .error _ => []
      | .ok transforms =>
        transforms.iterative.entries.flatMap fun (_, transform) => transform.strategy.paths
    (settings.corpusRoot? base).toList.map Manifest.pathIn ++
      (settings.wordsPath? base).toList ++ wordlists

/-- The files that a request reads, as far as the files known tell. -/
def wanted (request : Request) (files : Files) : List Path :=
  match request with
  | .version | .help => []
  | .corpus directory => [Manifest.pathIn directory]
  | .generate template config .. | .preview template config | .inspect template config =>
    template :: config :: wantedBy files config

end Request

/-- The outcome of a command line. -/
def runArguments (arguments : List String) (files : Files) (entropy : UInt64) : Outcome :=
  match Invocation.parse arguments with
  | none => ⟨.empty, "", none⟩
  | some invocation => invocation.request.run files entropy

end Stencil
