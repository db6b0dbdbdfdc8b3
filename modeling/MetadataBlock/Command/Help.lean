import MetadataBlock.Command.Flag

/-!
# Help texts

One text for the program and one for each command, eighty columns wide.
-/

namespace MetadataBlock.Help

/-- The version that the program reports. -/
def version : Text := "0.6.0"

/-- The help text of the program. -/
def general : List Text :=
  ["Usage: mdblock [options] [command]",
   "",
   "Lint metadata block schemas and convert them to TSV",
   "",
   "Options:",
   "  -V, --version               output the version number",
   "  -c, --config <path>         Lint configuration file (YAML or JSON)",
   "  -h, --help                  display help for command",
   "",
   "Commands:",
   "  check [options] <files...>  Lint metadata block files (YAML or TSV) and",
   "                              report violations",
   "  convert [options] <file>    Convert a metadata block into a TSV metadata",
   "                              block",
   "  rules [options]             List all lint rules with their code, scope and",
   "                              default severity",
   "  help [command]              display help for command"]

/-- The help text of `check`. -/
def check : List Text :=
  ["Usage: mdblock check [options] <files...>",
   "",
   "Lint metadata block files (YAML or TSV) and report violations",
   "",
   "Arguments:",
   "  files                       Metadata block files to check",
   "",
   "Options:",
   "  -e, --error <rules>         Report these rules as errors (name or code,",
   "                              repeatable) (default: [])",
   "  -w, --warn <rules>          Report these rules as warnings (name or code,",
   "                              repeatable) (default: [])",
   "  -s, --skip <rules>          Do not run these rules (name or code, repeatable)",
   "                              (default: [])",
   "  --warning-exit-code <code>  Exit code when only warnings are found",
   "  --min-prefix-length <n>     Shortest shared prefix that groups field names",
   "  --typo-threshold <n>        Largest edit distance reported as a likely typo",
   "  -v, --verbose               Print performed checks (repeat for more detail)",
   "  -o, --output <format>       Output format: text (default) or json",
   "  -h, --help                  display help for command",
   "",
   "Exit codes:",
   "  0  No violations (or only warnings, unless --warning-exit-code is set)",
   "  1  At least one error",
   "  2  An input file could not be read",
   "  3  Invalid configuration or unknown rule",
   "",
   "Examples:",
   "  mdblock check citation.yml",
   "  mdblock check blocks/*.tsv --skip name_prefix_typos",
   "  mdblock check citation.yml -w e001 --warning-exit-code 4",
   "  mdblock check citation.yml --output json"]

/-- The help text of `convert`. -/
def convert : List Text :=
  ["Usage: mdblock convert [options] <file>",
   "",
   "Convert a metadata block into a TSV metadata block",
   "",
   "Arguments:",
   "  file                        Metadata block file to convert",
   "",
   "Options:",
   "  -e, --error <rules>         Report these rules as errors (name or code,",
   "                              repeatable) (default: [])",
   "  -w, --warn <rules>          Report these rules as warnings (name or code,",
   "                              repeatable) (default: [])",
   "  -s, --skip <rules>          Do not run these rules (name or code, repeatable)",
   "                              (default: [])",
   "  --warning-exit-code <code>  Exit code when only warnings are found",
   "  --min-prefix-length <n>     Shortest shared prefix that groups field names",
   "  --typo-threshold <n>        Largest edit distance reported as a likely typo",
   "  -v, --verbose               Print performed checks (repeat for more detail)",
   "  --outfile <path>            Where to write the TSV output",
   "  -h, --help                  display help for command",
   "",
   "The file is linted first; the output is only written when no errors were",
   "found. By default the output is placed next to the input with a .tsv",
   "extension.",
   "",
   "Examples:",
   "  mdblock convert citation.yml",
   "  mdblock convert citation.yml --outfile build/citation.tsv"]

/-- The help text of `rules`. -/
def rules : List Text :=
  ["Usage: mdblock rules [options]",
   "",
   "List all lint rules with their code, scope and default severity",
   "",
   "Options:",
   "  -o, --output <format>  Output format: text (default) or json",
   "  -h, --help             display help for command"]

/-- The help text of a command, or of the program. -/
def lines : Option Command → List Text
  | none => general
  | some .check => check
  | some .convert => convert
  | some .rules => rules

end MetadataBlock.Help
