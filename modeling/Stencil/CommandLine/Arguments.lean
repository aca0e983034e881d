import Stencil.Path

/-!
# Arguments of the command line

A command line names a command, and the command has one operand and options. Options begin with
two dashes; the value of an option stands behind it or, after an equals sign, in it. No option may
be given twice, except the one that asks for more log output. Two dashes alone end the options.

Main definitions:

* `Request`: what a command line asks for.
* `Invocation.parse`: reads a command line.
-/

namespace Stencil

/-- What a command line asks for. -/
inductive Request where
  /-- All payloads of a template, at most `limit` of them. -/
  | generate (template config : Path) (limit : Option Nat) (randomize : Bool)
      (seed : Option UInt64) (json : Bool)
  /-- The template with the text of every region shown. -/
  | preview (template config : Path)
  /-- What is known of the template before any payload is made. -/
  | inspect (template config : Path)
  /-- The keywords of a corpus. -/
  | corpus (directory : Path)
  /-- The version of the program. -/
  | version
  /-- How the program is used. -/
  | help
deriving DecidableEq, Repr

/-- A command line that can be followed. -/
structure Invocation where
  /-- How much log output is asked for. -/
  verbosity : Nat
  /-- What is asked for. -/
  request : Request
deriving DecidableEq, Repr

/-- The filter of log output that goes with how much of it is asked for. -/
def logDirective : Nat → String
  | 0 => "warn"
  | 1 => "warn,tagforge=info"
  | 2 => "warn,tagforge=debug"
  | _ => "warn,tagforge=trace"

/-- The commands. -/
inductive Command where
  /-- Makes payloads. -/
  | generate
  /-- Shows the text of every region as it was written. -/
  | preview
  /-- Shows what is known of a template. -/
  | inspect
  /-- Lists keywords. -/
  | corpus
deriving DecidableEq, Repr

namespace Command

/-- The command with a name. -/
def ofName? : String → Option Command
  | "generate" => some generate
  | "preview" => some preview
  | "inspect" => some inspect
  | "corpus" => some corpus
  | _ => none

/-- What help can be asked about: nothing in particular, or one command, which may be the one that
gives help. -/
def isHelpTopic : List String → Bool
  | [] => true
  | [name] => name = "help" || (ofName? name).isSome
  | _ => false

/-- The options that have a value. -/
def valued : Command → List String
  | generate => ["config", "limit", "seed"]
  | preview | inspect => ["config"]
  | corpus => []

/-- The options without a value. -/
def switches : Command → List String
  | generate => ["randomize", "json"]
  | preview | inspect | corpus => []

end Command

/-- The form of an argument. -/
inductive Argument where
  /-- Two dashes alone. -/
  | endOfOptions
  /-- An option with its name written out, and the value behind an equals sign, if there is one. -/
  | long (name : List Char) (value : Option String)
  /-- Options of one letter each. -/
  | short (letters : List Char)
  /-- Anything else. -/
  | operand (text : String)
deriving DecidableEq, Repr

/-- The form of an argument. -/
def Argument.ofString (text : String) : Argument :=
  match text.toList with
  | ['-', '-'] => .endOfOptions
  | '-' :: '-' :: rest =>
    match rest.span (· != '=') with
    | (name, _ :: value) => .long name (some (String.ofList value))
    | (name, []) => .long name none
  | '-' :: letter :: letters => .short (letter :: letters)
  | _ => .operand text

/-- What has been read of the arguments of a command. -/
structure Gathered where
  /-- How much log output is asked for. -/
  verbosity : Nat := 0
  /-- The operand. -/
  operand : Option String := none
  /-- The options with a value. -/
  values : List (String × String) := []
  /-- The options without a value. -/
  switches : List String := []

/-- Why reading a command line stops early. -/
inductive Interruption where
  /-- The command line cannot be followed. -/
  | usage
  /-- The version is asked for. -/
  | version
  /-- The use is asked for. -/
  | help
deriving DecidableEq, Repr

namespace Gathered

/-- A number without a sign, or with a plus, below a bound. -/
def number? (bound : Nat) (text : String) : Option Nat :=
  let digits := match text.toList with
    | '+' :: digits => digits
    | digits => digits
  if !digits.isEmpty && digits.all Char.isDigit then
    let n := digits.foldl (fun n c => n * 10 + (c.toNat - '0'.toNat)) 0
    if n < bound then some n else none
  else none

/-- Whether an option takes a value: a path may not be empty, the other values are numbers. -/
def takesValue (name value : String) : Bool :=
  if name = "config" then value ≠ "" else (number? UInt64.size value).isSome

/-- Adds an operand; there may be only one, and it is a path that may not be empty. -/
def addOperand (gathered : Gathered) (text : String) : Except Interruption Gathered :=
  if gathered.operand.isSome || text = "" then .error .usage
  else .ok { gathered with operand := some text }

/-- Adds operands behind the end of the options. -/
def addOperands : Gathered → List String → Except Interruption Gathered
  | gathered, [] => .ok gathered
  | gathered, text :: texts => (gathered.addOperand text).bind (addOperands · texts)

/-- Adds an option with its value. -/
def addValue (gathered : Gathered) (name value : String) : Except Interruption Gathered :=
  if (gathered.values.lookup name).isSome || !takesValue name value then .error .usage
  else .ok { gathered with values := (name, value) :: gathered.values }

/-- Adds an option without a value. -/
def addSwitch (gathered : Gathered) (name : String) : Except Interruption Gathered :=
  if gathered.switches.contains name then .error .usage
  else .ok { gathered with switches := name :: gathered.switches }

/-- Adds options of one letter each; the version can be asked for only before the command. -/
def addLetters (beforeCommand : Bool) : Gathered → List Char → Except Interruption Gathered
  | gathered, [] => .ok gathered
  | gathered, letter :: letters =>
    if letter = 'v' then
      addLetters beforeCommand { gathered with verbosity := gathered.verbosity + 1 } letters
    else if letter = 'h' then .error .help
    else if letter = 'V' ∧ beforeCommand then .error .version
    else .error .usage

/-- Reads the arguments of a command. -/
def read (command : Command) : Gathered → List String → Except Interruption Gathered
  | gathered, [] => .ok gathered
  | gathered, text :: texts =>
    match Argument.ofString text with
    | .endOfOptions => gathered.addOperands texts
    | .operand text =>
      match gathered.addOperand text with
      | .error stop => .error stop
      | .ok gathered => read command gathered texts
    | .short letters =>
      match gathered.addLetters false letters with
      | .error stop => .error stop
      | .ok gathered => read command gathered texts
    | .long letters attached =>
      let name := String.ofList letters
      if command.valued.contains name then
        match attached, texts with
        | some value, texts =>
          match gathered.addValue name value with
          | .error stop => .error stop
          | .ok gathered => read command gathered texts
        | none, [] => .error .usage
        -- a value that could be an option is none, unless it stands behind an equals sign
        | none, value :: texts =>
          match Argument.ofString value with
          | .operand value =>
            match gathered.addValue name value with
            | .error stop => .error stop
            | .ok gathered => read command gathered texts
          | .endOfOptions | .long .. | .short _ => .error .usage
      else if attached.isSome then .error .usage
      else if command.switches.contains name then
        match gathered.addSwitch name with
        | .error stop => .error stop
        | .ok gathered => read command gathered texts
      else if name = "verbose" then
        read command { gathered with verbosity := gathered.verbosity + 1 } texts
      else if name = "help" then .error .help
      else .error .usage

/-- The value of an option that is a number. -/
def numberOf (gathered : Gathered) (name : String) : Option Nat :=
  (gathered.values.lookup name).bind (number? UInt64.size)

/-- What the arguments of a command ask for. The operand has to be there, and so has the option
that names the configuration where a command takes it. -/
def request? (gathered : Gathered) (command : Command) : Option Request := do
  let operand : Path := ⟨← gathered.operand⟩
  match command with
  | .corpus => return .corpus operand
  | .preview => return .preview operand ⟨← gathered.values.lookup "config"⟩
  | .inspect => return .inspect operand ⟨← gathered.values.lookup "config"⟩
  | .generate =>
    return .generate operand ⟨← gathered.values.lookup "config"⟩ (gathered.numberOf "limit")
      (gathered.switches.contains "randomize") ((gathered.numberOf "seed").map UInt64.ofNat)
      (gathered.switches.contains "json")

end Gathered

namespace Invocation

/-- Reads the arguments up to the name of the command, and then those of the command. -/
def read : Gathered → List String → Except Interruption Invocation
  | _, [] => .error .usage
  | gathered, text :: texts =>
    match Argument.ofString text with
    -- what follows two dashes is an operand, and the program itself takes none
    | .endOfOptions => .error .usage
    | .short letters =>
      match gathered.addLetters true letters with
      | .error stop => .error stop
      | .ok gathered => read gathered texts
    | .long letters attached =>
      let name := String.ofList letters
      if attached.isSome then .error .usage
      else if name = "verbose" then
        read { gathered with verbosity := gathered.verbosity + 1 } texts
      else if name = "version" then .error .version
      else if name = "help" then .error .help
      else .error .usage
    | .operand "help" =>
      if Command.isHelpTopic texts then .error .help else .error .usage
    | .operand name =>
      match Command.ofName? name with
      | none => .error .usage
      | some command =>
        match Gathered.read command gathered texts with
        | .error stop => .error stop
        | .ok gathered =>
          match gathered.request? command with
          | none => .error .usage
          | some request => .ok ⟨gathered.verbosity, request⟩

/-- Reads a command line; nothing comes of one that cannot be followed. -/
def parse (arguments : List String) : Option Invocation :=
  match read {} arguments with
  | .ok invocation => some invocation
  | .error .usage => none
  | .error .version => some ⟨0, .version⟩
  | .error .help => some ⟨0, .help⟩

end Invocation

end Stencil
