import FireControl.Console.Request

/-!
# Help

The help texts of the program and of its commands: what a command does, how it is called, and a
table with a line for each option. The directory for log files stands second in the table of a
command.

## Main definitions

* `Help.text`: The help on a topic.
* `Help.version`: The name and version of the program.
-/

namespace FireControl

namespace Help

/-- The name and version of the program. -/
def version : String := "calibur 0.1.0\n"

/-- A table of two columns. -/
def table (rows : List (String × String)) : String :=
  let width := (rows.map fun row => row.1.length).foldl max 0
  let padded := fun (text : String) =>
    text ++ String.ofList (List.replicate (width - text.length) ' ')
  String.join (rows.map fun (left, right) => "  " ++ padded left ++ "  " ++ right ++ "\n")

/-- The line of an option. -/
def optionRow (option : CommandOption) : String × String :=
  let short := match option.short with
    | some c => "-" ++ String.singleton c ++ ", "
    | none => "    "
  let value := if option.kind = .flag then "" else " <" ++ option.placeholder ++ ">"
  (short ++ "--" ++ option.long ++ value, option.description)

/-- The line of the option that shows the help. -/
def helpRow : String × String := ("-h, --help", "Print help")

/-- The help on a command. -/
def ofCommand (name : CommandName) : String :=
  let options := name.options.take 1 ++ .logDir :: name.options.drop 1
  name.description ++ "\n\nUsage: calibur " ++ name.label ++ " [OPTIONS]\n\nOptions:\n" ++
    table (options.map optionRow ++ [helpRow])

/-- The help on the program. -/
def ofProgram : String :=
  let commands := CommandName.all.map fun c => (c.label, c.description)
  let help := ("help", "Print this message or the help of the given subcommand(s)")
  "Command-line interface for the Calibur aiming turret\n\n" ++
    "Usage: calibur [OPTIONS] <COMMAND>\n\nCommands:\n" ++ table (commands ++ [help]) ++
    "\nOptions:\n" ++
    table [optionRow .logDir, helpRow, ("-V, --version", "Print version")]

/-- The help on a topic. -/
def text : Option CommandName → String
  | none => ofProgram
  | some name => ofCommand name

end Help

end FireControl
