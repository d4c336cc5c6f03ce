import Breadboard.CommandLine

/-!
# The program `boardsim`

Reads the source file that the arguments name, and prints what the command line says.
-/

open Breadboard.CommandLine

/-- What the file holds, or why it cannot be read. -/
def readSource (name : String) : IO (Except String String) := do
  try
    return .ok (← IO.FS.readFile name)
  catch
    | .noFileOrDirectory .. => return .error noSuchFile
    | e => return .error (toString e)

/-- Understands the arguments, carries the command out and prints the result. -/
def main (args : List String) : IO UInt32 := do
  match Command.parse? args with
  | none =>
    IO.eprintln "usage: boardsim [-v] run|check SOURCE [OPTIONS] | list"
    return UInt32.ofNat Response.usageError.code
  | some command =>
    let text ← match command.source? with
      | some name => readSource name
      | none => pure (.ok "")
    let response := command.perform text
    IO.print response.stdout
    IO.eprint response.stderr
    return UInt32.ofNat response.code
