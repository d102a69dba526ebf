import LogMotif.Filter
import LogMotif.Index

/-! # Arguments of the command line

One log file, the rows that make up the motif, and options. An option takes its value behind an
equals sign or as the next argument, which must not look like an option itself; only the number of
steps may. Behind a double dash every argument is a file. Arguments are read from the left: the
first that asks for help or for the version is granted if there is nothing wrong in front of it,
and what follows it does not matter.
-/

namespace LogMotif.CommandLine

/-- The arguments of a search. -/
structure Arguments where
  log : String
  /-- The rows that make up the motif, counted after filtering. -/
  select : List Nat
  actions : Option String
  ruleColumns : List String
  filterText : Option String
  filterColumn : String
  step : Int
  config : Option String
  writeConfig : Option String
deriving DecidableEq, Repr

/-- The options that take a value. -/
inductive OptionName where
  | select
  | actions
  | ruleColumn
  | filterText
  | filterColumn
  | step
  | config
  | writeConfig
deriving DecidableEq, Repr

/-- The option of the given name. -/
def OptionName.ofText? : String → Option OptionName
  | "select" => some select
  | "actions" => some actions
  | "rule-column" => some ruleColumn
  | "filter-text" => some filterText
  | "filter-column" => some filterColumn
  | "step" => some step
  | "config" => some config
  | "write-config" => some writeConfig
  | _ => none

/-- Whether an option may be given more than once. -/
def OptionName.mayRepeat : OptionName → Bool
  | select | ruleColumn => true
  | _ => false

/-- Whether an argument looks like an option. A single dash does not. -/
def looksLikeOption (argument : String) : Bool := argument.startsWith "-" && argument != "-"

/-- The name and value of a long option, if an argument is one. -/
def longOption? (argument : String) : Option (OptionName × Option String) :=
  match argument.toList with
  | '-' :: '-' :: content =>
    let name := content.takeWhile (· != '=')
    (OptionName.ofText? (String.ofList name)).map fun option =>
      (option,
        if name.length < content.length then
          some (String.ofList (content.drop (name.length + 1)))
        else none)
  | _ => none

/-- What is asked for apart from a search. -/
inductive Inquiry where
  | help
  | version
deriving DecidableEq, Repr

/-- The inquiry that an argument makes, if any. Of short options only the first letter counts. -/
def inquiry? (argument : String) : Option Inquiry :=
  match argument.toList with
  | '-' :: 'h' :: _ => some .help
  | '-' :: 'V' :: _ => some .version
  | _ =>
    if argument = "--help" then some .help
    else if argument = "--version" then some .version
    else none

/-- The options and files among some arguments, in their order, up to an inquiry. -/
structure Scan where
  options : List (OptionName × String) := []
  files : List String := []
  inquiry : Option Inquiry := none
deriving DecidableEq, Repr

/-- A scan with an option in front. -/
def Scan.withOption (option : OptionName) (value : String) (scan : Scan) : Scan :=
  { scan with options := (option, value) :: scan.options }

/-- A scan with a file in front. -/
def Scan.withFile (file : String) (scan : Scan) : Scan :=
  { scan with files := file :: scan.files }

/-- Scan some arguments. There is no scan if one of them is no known option, or if an option has no
value. -/
def scan : List String → Option Scan
  | [] => some {}
  | "--" :: files => some { files }
  | argument :: rest =>
    if !looksLikeOption argument then (scan rest).map (·.withFile argument)
    else
      match inquiry? argument, longOption? argument, rest with
      | some inquiry, _, _ => some { inquiry := some inquiry }
      | none, some (option, some value), rest => (scan rest).map (·.withOption option value)
      | none, some (option, none), value :: rest =>
        if option = .step ∨ ¬ looksLikeOption value then
          (scan rest).map (·.withOption option value)
        else none
      | none, some (_, none), [] | none, none, _ => none

/-- The number that decimal digits stand for, if there are any and nothing else. -/
def natural? (digits : List Char) : Option Nat :=
  if digits.isEmpty || !digits.all Char.isDigit then none
  else some (digits.foldl (fun value c => value * 10 + (c.toNat - '0'.toNat)) 0)

/-- The index that a text stands for. A plus sign may come first. -/
def index? (text : String) : Option Nat := do
  let digits := match text.toList with
    | '+' :: digits => digits
    | digits => digits
  let n ← natural? digits
  if n ≤ Index.greatest then some n else none

/-- The number of steps that a text stands for. -/
def steps? (text : String) : Option Int := do
  let n : Int ← match text.toList with
    | '-' :: digits => (natural? digits).map fun n => -(n : Int)
    | '+' :: digits => (natural? digits).map Int.ofNat
    | digits => (natural? digits).map Int.ofNat
  if -0x8000000000000000 ≤ n ∧ n < 0x8000000000000000 then some n else none

/-- The rows that a text lists, between commas. -/
def rows? (text : String) : Option (List Nat) := (text.splitOn ",").mapM index?

/-- The values given for an option. -/
def valuesOf (options : List (OptionName × String)) (option : OptionName) : List String :=
  (options.filter (·.1 = option)).map (·.2)

/-- Whether the value of an option is of the right kind: a list of rows, a number of steps, a path,
which must not be empty, or any text. -/
def isProper : OptionName × String → Bool
  | (.select, value) => (rows? value).isSome
  | (.step, value) => (steps? value).isSome
  | (.actions, value) | (.config, value) | (.writeConfig, value) => !value.isEmpty
  | (.ruleColumn, _) | (.filterText, _) | (.filterColumn, _) => true

/-- Whether there is nothing wrong in what has been scanned: one file at most, all values of the
right kind, and no option twice that may be given once. -/
def Scan.isProper (scan : Scan) : Bool :=
  scan.files.length ≤ 1 && scan.files.all (!·.isEmpty) &&
    scan.options.all CommandLine.isProper &&
    scan.options.all fun (option, _) =>
      option.mayRepeat || (valuesOf scan.options option).length ≤ 1

/-- The arguments of a search, if there are a file and rows. -/
def Scan.arguments? (scan : Scan) : Option Arguments := do
  let value? (option : OptionName) := (valuesOf scan.options option).head?
  let selected := valuesOf scan.options .select
  if selected.isEmpty then none
  return {
    log := ← scan.files.head?
    select := (← selected.mapM rows?).flatten
    actions := value? .actions
    ruleColumns := valuesOf scan.options .ruleColumn
    filterText := value? .filterText
    filterColumn := (value? .filterColumn).getD FilterColumn.allName
    step := ((value? .step).bind steps?).getD 0
    config := value? .config
    writeConfig := value? .writeConfig }

/-- What the command line asks for. -/
inductive Request where
  | search (arguments : Arguments)
  | inquire (inquiry : Inquiry)
deriving DecidableEq, Repr

/-- What some arguments ask for, or none if they are refused. -/
def parse (arguments : List String) : Option Request := do
  let scanned ← scan arguments
  if !scanned.isProper then none
  match scanned.inquiry with
  | some inquiry => return .inquire inquiry
  | none => return .search (← scanned.arguments?)

end LogMotif.CommandLine
