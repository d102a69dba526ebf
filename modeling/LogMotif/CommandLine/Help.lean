/-! # Help

What the command says about itself: its version, its usage, and its options in two columns.
-/

namespace LogMotif.CommandLine

/-- What the command knows of itself and its user. -/
structure Program where
  /-- The name it goes by. -/
  name : String
  /-- The directory for the configurations of the user. -/
  configDirectory : Option String
deriving DecidableEq, Repr

/-- The version of the command. -/
def version : String := "0.1.0"

/-- The options, as they are written, with what they are for. -/
def optionHelp : List (String × String) :=
  [("    --select <SELECT>", "Rows that make up the structure, after filtering"),
    ("    --actions <FILE>", "JSON file with a list of structure edits to apply before searching"),
    ("    --rule-column <NAME>", "Coloring rule column; never part of a structure"),
    ("    --filter-text <FILTER_TEXT>", "Keep only rows containing this text"),
    ("    --filter-column <FILTER_COLUMN>", "Column searched by --filter-text [default: All]"),
    ("    --step <STEP>",
      "Move the match cursor by this many steps (negative goes backwards) [default: 0]"),
    ("    --config <FILE>", "Config file to use instead of the one in the user config directory"),
    ("    --write-config <FILE>", "Write the effective config to this file"),
    ("-h, --help", "Print help"),
    ("-V, --version", "Print version")]

/-- Lines of two columns, the second of which starts two blanks behind the longest first. -/
def columns (rows : List (String × String)) : List String :=
  let width := (rows.map fun row => row.1.length).foldl max 0
  rows.map fun (left, right) => "  " ++ left.pushn ' ' (width - left.length) ++ "  " ++ right

namespace Program

/-- The file with the configuration of the user, which lies under the name of the command. -/
def userConfig (program : Program) : Option String :=
  program.configDirectory.map fun directory =>
    String.intercalate "/" [directory, program.name, "config.json"]

/-- The name and version of the command. -/
def versionLine (program : Program) : String := program.name ++ " " ++ version ++ "\n"

/-- How the command is called. -/
def usage (program : Program) : String :=
  "Usage: " ++ program.name ++ " [OPTIONS] --select <SELECT> <LOG>"

/-- All that the command says about itself. -/
def help (program : Program) : String :=
  let lines :=
    ["Find repeated row structures in JSON logs", "", program.usage, "", "Arguments:"]
      ++ columns [("<LOG>", "Path to the log file (JSON array or JSON lines)")]
      ++ ["", "Options:"] ++ columns optionHelp
  String.join (lines.map (· ++ "\n"))

end Program

end LogMotif.CommandLine
