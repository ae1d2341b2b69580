import Paybook.Session.Basic
import Paybook.Settings.Json

/-! # The command line

The program replays a table of operations and writes the report. Rows that fail are told on the
error stream and do not end the run. -/

namespace Paybook.CommandLine

/-! ## Arguments -/

/-- What the arguments ask for. -/
structure Options where
  input : Option String := none
  settings : Option String := none
  seed : Option Nat := none
  admin : Option Nat := none
  database : Option String := none
deriving DecidableEq, Repr

/-- What to do about the arguments. -/
inductive Request where
  | replay (options : Options)
  | help
  | version
  | misuse
deriving DecidableEq, Repr

namespace Options

/-- Sets a field that may be given once. -/
def once {α : Type} (old : Option α) (new : Option α) : Option (Option α) :=
  match old, new with
  | none, some a => some (some a)
  | _, _ => none

/-- A path; it may not be empty. -/
def path? (s : String) : Option String := if s.isEmpty then none else some s

/-- Sets the option of a name. -/
def set? (o : Options) (name value : String) : Option Options :=
  match name with
  | "config" => (once o.settings (path? value)).map fun v => { o with settings := v }
  | "seed" => (once o.seed (Text.readWord? value)).map fun v => { o with seed := v }
  | "admin-id" => (once o.admin (Text.readWord? value)).map fun v => { o with admin := v }
  | "db-path" => (once o.database (path? value)).map fun v => { o with database := v }
  | _ => none

/-- Sets the input. -/
def setInput? (o : Options) (value : String) : Option Options :=
  (once o.input (path? value)).map fun v => { o with input := v }

end Options

/-- An argument by its form. -/
inductive Argument where
  | endOfOptions
  | long (name : String) (value : Option String)
  | short (flag : Char)
  | plain (value : String)
deriving DecidableEq, Repr

/-- The form of an argument. A single hyphen is a plain one. -/
def Argument.ofString (s : String) : Argument :=
  match s.toList with
  | ['-', '-'] => .endOfOptions
  | '-' :: '-' :: cs =>
    let name := String.ofList (cs.takeWhile (· ≠ '='))
    match cs.dropWhile (· ≠ '=') with
    | [] => .long name none
    | _ :: value => .long name (some (String.ofList value))
  | '-' :: c :: _ => .short c
  | _ => .plain s

/-- Reads the arguments behind the end of the options. -/
def readInputs (o : Options) : List String → Request
  | [] => if o.input.isSome then .replay o else .misuse
  | a :: rest =>
    match o.setInput? a with
    | some o => readInputs o rest
    | none => .misuse

/-- Reads the arguments. The first of them that asks for help, for the version or for something
impossible decides. -/
def readArguments (o : Options) : List String → Request
  | [] => readInputs o []
  | a :: rest =>
    match Argument.ofString a with
    | .endOfOptions => readInputs o rest
    | .short 'h' => .help
    | .short 'V' => .version
    | .short _ => .misuse
    | .plain value =>
      match o.setInput? value with
      | some o => readArguments o rest
      | none => .misuse
    | .long "help" none => .help
    | .long "version" none => .version
    | .long name (some value) =>
      match o.set? name value with
      | some o => readArguments o rest
      | none => .misuse
    | .long name none =>
      match rest with
      | [] => .misuse
      | b :: rest =>
        match Argument.ofString b with
        | .plain value =>
          match o.set? name value with
          | some o => readArguments o rest
          | none => .misuse
        | _ => .misuse

/-! ## A run -/

/-- What a run leaves behind. -/
structure Result where
  exit : Nat
  output : String
  errors : String
deriving DecidableEq, Repr

/-- What a run takes from its surroundings. -/
structure Surroundings where
  /-- The bytes of a file, if it can be read. -/
  file : String → Option (List UInt8)
  /-- Whether a path can be opened. A folder can, though no bytes can be read from it. -/
  opens : String → Bool
  zone : Time.Zone
  now : Time.Instant
  tokens : Nat → Token
  /-- The seed of the draws when none is set. -/
  spareSeed : Nat

/-- Ends a run that could not be completed. -/
def abort (errors : String) (f : Failure) : Result := ⟨1, "", errors ++ s!"Error: {f}\n"⟩

/-- Ends a run because a sum of money outgrew the decimals. -/
def overflow (errors : String) : Result := ⟨101, "", errors ++ "a sum of money is too large\n"⟩

def usage : String :=
  "Usage: order-ledger [OPTIONS] <INPUT>\n\nArguments:\n  <INPUT>  Input operations CSV file\n\n" ++
  "Options:\n      --config <CONFIG>      JSON file with the settings\n" ++
  "      --seed <SEED>          Seed for the simulated card gateways\n" ++
  "      --admin-id <ADMIN_ID>  Admin id of admin credits and debits [default: 1]\n" ++
  "      --db-path <DB_PATH>    Path to persistent database\n" ++
  "  -h, --help                 Print help\n  -V, --version              Print version\n"

def missingFile (path : String) : Failure := .file s!"cannot read {path}"

/-- The settings of a run. -/
def loadSettings (file : String → Option (List UInt8)) (o : Options) : Attempt Settings := do
  let settings : Settings ← match o.settings with
    | none => .ok {}
    | some path =>
      match (file path).bind Text.textOfBytes? with
      | some text => Settings.parse text
      | none => .error (missingFile path)
  return match o.seed with
    | some seed => { settings with gateway := { settings.gateway with seed := some seed } }
    | none => settings

def databaseWarning : String :=
  "WARNING: Persistent storage requested via --db-path, but 'storage-rocksdb' feature is not " ++
  "enabled. Falling back to In-Memory storage.\n"

/-- Applies the rows of a table from a number on. What fails is told; none is left when a sum of
money outgrows the decimals. -/
def replayRows (s : Session) (number : Nat) (errors : String) :
    List (Attempt Operation) → Option Session × String
  | [] => (some s, errors)
  | .error f :: rows =>
    replayRows s (number + 1) (errors ++ s!"Error reading operation {number}: {f}\n") rows
  | .ok o :: rows =>
    match s.apply o with
    | (.returned _, s) => replayRows s (number + 1) errors rows
    | (.failed f, s) =>
      replayRows s (number + 1) (errors ++ s!"Error processing operation {number}: {f}\n") rows
    | (.overflowed, _) => (none, errors)

/-- Replays a table in a session and writes the report. -/
def replayTable (s : Session) (errors : String) (table : List UInt8) : Result :=
  match replayRows s 1 errors (Operation.ofTable table) with
  | (none, errors) => overflow errors
  | (some s, errors) =>
    match s.report with
    | .returned ls => ⟨0, ReportLine.write ls, errors⟩
    | .failed f => abort errors f
    | .overflowed => overflow errors

/-- The bytes of a table. What opens and cannot be read is a table without bytes. -/
def Surroundings.table? (around : Surroundings) (path : String) : Option (List UInt8) :=
  if around.opens path then some ((around.file path).getD []) else none

/-- Replays what the options ask for. -/
def replay (around : Surroundings) (o : Options) : Result :=
  match loadSettings around.file o with
  | .error f => abort "" f
  | .ok settings =>
    let errors := if o.database.isSome then databaseWarning else ""
    let path := o.input.getD ""
    match around.table? path with
    | none => abort errors (missingFile path)
    | some table =>
      let session := Session.opening settings around.spareSeed (o.admin.getD 1) around.zone
        around.now around.tokens
      replayTable session errors table

/-- Runs the program with its arguments. -/
def run (around : Surroundings) (arguments : List String) : Result :=
  match readArguments {} arguments with
  | .replay o => replay around o
  | .help => ⟨0, usage, ""⟩
  | .version => ⟨0, "order-ledger 0.1.0\n", ""⟩
  | .misuse => ⟨2, "", usage⟩

/-- The files that a run may read. -/
def paths (arguments : List String) : List String :=
  match readArguments {} arguments with
  | .replay o => o.settings.toList ++ o.input.toList
  | _ => []

end Paybook.CommandLine
