import Breadboard.Board.Report

/-!
# The command line

`boardsim` runs a program on a board, prints the listing of a program, or lists what is available.
This module reads the arguments and says what is printed; it reads no file itself. Arguments that
cannot be understood are a usage error with the exit code 2, everything else that goes wrong has the
exit code 1.
-/

namespace Breadboard.CommandLine

/-! ## Arguments -/

/-- The options that take a value. -/
inductive OptionName where
  | arch
  | memory
  | device
  | maxSteps
  deriving DecidableEq, Repr

/-- The option written `name`, without the dashes. -/
def OptionName.find? : String → Option OptionName
  | "arch" => some .arch
  | "memory" => some .memory
  | "device" => some .device
  | "max-steps" => some .maxSteps
  | _ => none

/-- An argument that was understood. -/
inductive Item where
  | verbose
  | option (name : OptionName) (value : String)
  | positional (value : String)
  deriving DecidableEq, Repr

/-- An argument that begins with a dash is an option, unless it is the dash alone. -/
def isOption (arg : String) : Bool :=
  match arg.toList with
  | '-' :: _ :: _ => true
  | _ => false

/-- The name and the value of `--name=value`, or the name of `--name`. -/
def splitLong? (arg : String) : Option (String × Option String) :=
  match arg.toList with
  | '-' :: '-' :: body =>
    let name := String.ofList (body.takeWhile (· ≠ '='))
    match body.dropWhile (· ≠ '=') with
    | [] => some (name, none)
    | _ :: value => some (name, some (String.ofList value))
  | _ => none

/-- Understands the arguments of a subcommand, or finds that it cannot. The value of an option is
attached to it or follows it, and must be attached if it begins with a dash. After `--` nothing is
an option. -/
def items? (allowed : List OptionName) : List String → Option (List Item)
  | [] => some []
  | "--" :: rest => some (rest.map .positional)
  | "-v" :: rest => (items? allowed rest).map (.verbose :: ·)
  | "--verbose" :: rest => (items? allowed rest).map (.verbose :: ·)
  | arg :: rest =>
    if ! isOption arg then (items? allowed rest).map (.positional arg :: ·)
    else
      match splitLong? arg with
      | none => none
      | some (name, attached) =>
        match (OptionName.find? name).filter allowed.contains with
        | none => none
        | some name =>
          match attached, rest with
          | some value, rest => (items? allowed rest).map (.option name value :: ·)
          | none, value :: rest =>
            if isOption value then none
            else (items? allowed rest).map (.option name value :: ·)
          | none, [] => none

/-- The values given for an option, in order. -/
def valuesOf (items : List Item) (name : OptionName) : List String :=
  items.filterMap fun
    | .option n value => if n = name then some value else none
    | _ => none

/-- The arguments that are not options, in order. -/
def positionals (items : List Item) : List String :=
  items.filterMap fun
    | .positional value => some value
    | _ => none

/-- The value of an option that is given at most once, or `default`. -/
def single? (items : List Item) (name : OptionName) (default : String) : Option String :=
  match valuesOf items name with
  | [] => some default
  | [value] => some value
  | _ => none

/-- Reads all of `texts`, unless one of them is malformed. -/
def parseAll {ε α : Type} (parse : String → Except ε α) : List String → Option (List α)
  | [] => some []
  | text :: rest =>
    match parse text with
    | .error _ => none
    | .ok a => (parseAll parse rest).map (a :: ·)

/-! ## Commands -/

/-- What the program is asked to do. -/
inductive Command where
  | run (source : String) (config : BoardConfig) (maxSteps : Nat)
  | check (source : String) (config : BoardConfig)
  | list
  deriving DecidableEq, Repr

/-- The source file and the board that the arguments of a subcommand describe. -/
def boardOf? (items : List Item) : Option (String × BoardConfig) := do
  let [source] := positionals items | none
  if source = "" then none
  let architecture ← single? items .arch "6502"
  let memory ← single? items .memory "max"
  let memory ← (MemorySize.parse memory).toOption
  let devices ← parseAll Descriptor.parse (valuesOf items .device)
  return (source, { architecture, memory, devices })

/-- Verbose output is asked for at most once. -/
def verboseOnce (items : List Item) : Bool := items.count .verbose ≤ 1

/-- The command of a subcommand and its arguments. -/
def Command.ofItems? : String → List String → Option Command
  | "run", args => do
    let items ← items? [.arch, .memory, .device, .maxSteps] args
    let (source, config) ← boardOf? items
    let maxSteps ← single? items .maxSteps (toString defaultMaxSteps)
    let maxSteps ← Numeral.count? maxSteps.toList
    if verboseOnce items then return .run source config maxSteps else none
  | "check", args => do
    let items ← items? [.arch, .memory, .device] args
    let (source, config) ← boardOf? items
    if verboseOnce items then return .check source config else none
  | "list", args => do
    let items ← items? [] args
    if verboseOnce items && (positionals items).isEmpty then return .list else none
  | _, _ => none

/-- The command that the arguments ask for. Verbose output may be asked for once before the
subcommand and once after it. -/
def Command.parse? : List String → Option Command
  | "-v" :: name :: args | "--verbose" :: name :: args => Command.ofItems? name args
  | name :: args => Command.ofItems? name args
  | [] => none

/-- The file that the command reads. -/
def Command.source? : Command → Option String
  | .run source _ _ => some source
  | .check source _ => some source
  | .list => none

/-! ## What is printed -/

/-- What the program prints, and its exit code. -/
structure Response where
  code : Nat
  stdout : String := ""
  stderr : String := ""
  deriving DecidableEq, Repr

/-- The answer to arguments that cannot be understood. -/
def Response.usageError : Response := { code := 2 }

/-- A failure after `stdout` was printed. -/
def Response.failure (stdout message : String) : Response :=
  { code := 1, stdout, stderr := message ++ "\n" }

/-- The reason why a file that does not exist cannot be read. -/
def noSuchFile : String := "No such file or directory (os error 2)"

/-- Loads and runs a program and prints the state of the board, whether or not the run fails. -/
def runProgram (config : BoardConfig) (maxSteps : Nat) (text : String) : Response :=
  match Board.build config with
  | .error e => .failure "" e.message
  | .ok board =>
    match board.load text with
    | (.error e, _) => .failure "" e.message
    | (.ok _, board) =>
      match board.run maxSteps with
      | (.error e, board) => .failure (Report.state board) e.message
      | (.ok outcome, board) =>
        if outcome.ended then { code := 0, stdout := Report.state board }
        else
          .failure (Report.state board) s!"program did not end within {outcome.steps} steps"

/-- Assembles a program and prints its listing, whether or not it can be loaded. -/
def checkProgram (config : BoardConfig) (text : String) : Response :=
  match Board.build config with
  | .error e => .failure "" e.message
  | .ok board =>
    let (loaded, board) := board.load text
    let listing := board.program.elim "" fun p => Report.listing p board.arch.sizes.address
    match loaded with
    | .error e => .failure listing e.message
    | .ok _ => { code := 0, stdout := listing }

/-- The names of the architectures and devices. -/
def catalogText : String :=
  let rows (names : List String) := String.join (names.map fun name => s!"  {name}\n")
  "architectures:\n" ++ rows Catalog.architectureNames ++ "devices:\n" ++ rows Catalog.deviceNames

/-- Carries the command out. `text` is what was read from the source file, or why nothing was. -/
def Command.perform (text : Except String String) : Command → Response
  | .list => { code := 0, stdout := catalogText }
  | .run source config maxSteps =>
    match text with
    | .error reason => .failure "" s!"{source}: {reason}"
    | .ok text => runProgram config maxSteps text
  | .check source config =>
    match text with
    | .error reason => .failure "" s!"{source}: {reason}"
    | .ok text => checkProgram config text

end Breadboard.CommandLine
