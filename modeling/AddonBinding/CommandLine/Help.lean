import AddonBinding.CommandLine.Arguments

namespace AddonBinding.CommandLine

def versionText : String :=
  "widl-nan 0.1.0\n"

def usageLine : Option Command → String
  | none => "Usage: widl-nan [OPTIONS] <COMMAND>"
  | some command => "Usage: widl-nan " ++ command.name ++ " [OPTIONS] <FILE>"

def summary : Option Command → String
  | none => "Generate NAN native addon bindings from interface declarations"
  | some .compile => "Compile an interface model into addon source"
  | some .check => "Validate an interface model without writing anything"
  | some .manifest => "Print the symbol manifest as JSON"

def columns (heading : String) (rows : List (String × String)) : List String :=
  let width := (rows.map (·.1.length)).foldl max 0
  ["", heading] ++ rows.map fun (term, description) =>
    "  " ++ term ++ String.ofList (List.replicate (width - term.length + 2) ' ') ++ description

def debugRow : String × String :=
  ("-d, --debug", "Enable debug logging (WIDL_NAN_LOG takes precedence)")

def configRow : String × String :=
  ("-c, --config <FILE>", "Configuration file (default: ./widl-nan.toml when present)")

def moduleRow : String × String :=
  ("-m, --module <NAME>", "Module name passed to NODE_MODULE")

def helpRow : String × String :=
  ("-h, --help", "Print help")

def optionRows : Option Command → List (String × String)
  | none => [debugRow, configRow, helpRow, ("-V, --version", "Print version")]
  | some .compile => [
    debugRow,
    ("-o, --output <OUTPUT>", "Output directory (default: [build] output, or \"gen\")"),
    configRow,
    moduleRow,
    ("    --emit-dts", "Also emit a `.d.ts` declaration file"),
    ("    --no-manifest", "Do not write the symbol manifest"),
    ("    --stdout", "Print the generated source to stdout instead of writing files"),
    ("-v, --verbose", "Append generation warnings to the source as comments"),
    helpRow]
  | some .check => [debugRow, configRow, helpRow]
  | some .manifest => [debugRow, moduleRow, configRow, helpRow]

def operands (command : Option Command) : List String :=
  if command.isSome then columns "Arguments:" [("<FILE>", "Interface model (JSON)")]
  else columns "Commands:" (Command.all.map (fun c => (c.name, summary (some c)))
    ++ [("help", "Print this message or the help of the given subcommand(s)")])

def helpText (command : Option Command) : String :=
  String.join (([summary command, "", usageLine command] ++ operands command
    ++ columns "Options:" (optionRows command)).map (· ++ "\n"))

end AddonBinding.CommandLine
