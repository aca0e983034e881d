import Stencil.CommandLine.Run

/-!
# The program

The outer layer: it reads the files that a command line asks for, runs the command on them, and
writes what comes of it.
-/

namespace Stencil.Program

/-- What a path holds on disk. -/
def readPath (path : Path) : IO (Except FileError String) := do
  try
    let bytes ← IO.FS.readBinFile path.text
    return match String.fromUTF8? bytes with
      | some text => .ok text
      | none => .error .notUtf8
  catch error =>
    return .error <| match error with
      | .noFileOrDirectory .. => .notFound
      -- the number of a system error is given as it is or negated
      | .inappropriateType _ code _ =>
        if code = 20 ∨ 0 - code = 20 then .notDirectory else .isDirectory
      | error => .other (toString error)

/-- The files that were read. -/
def filesOf (known : List (Path × Except FileError String)) : Files where
  read path :=
    match known.find? (·.1.text == path.text) with
    | some (_, contents) => contents
    | none => .error .notFound

/-- Reads the files that a request asks for. The files read tell which others are needed: a
configuration names a manifest, and a manifest names wordlists. -/
def gather (request : Request) : IO Files := do
  let mut known : List (Path × Except FileError String) := []
  for _ in [0:3] do
    for path in request.wanted (filesOf known) do
      unless known.any (·.1.text == path.text) do
        known := (path, ← readPath path) :: known
  return filesOf known

end Stencil.Program

open Stencil in
/-- Runs a command line. -/
def main (arguments : List String) : IO UInt32 := do
  let files ← match Invocation.parse arguments with
    | some invocation => Program.gather invocation.request
    | none => pure (Program.filesOf [])
  let entropy := UInt64.ofNat (← IO.rand 0 (UInt64.size - 1))
  let outcome := runArguments arguments files entropy
  (← IO.getStdout).putStr outcome.output
  if let some message := outcome.message then
    IO.eprintln message
  if (Invocation.parse arguments).isNone then
    IO.eprint helpText
  return UInt32.ofNat outcome.code.number
