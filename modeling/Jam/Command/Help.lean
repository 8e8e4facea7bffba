/-!
What the command says of itself.
-/
namespace Jam

def helpText : String :=
  "Parses Jam source files into a syntax tree

Usage: jamc [OPTIONS] [INPUT]

Arguments:
  [INPUT]  Source file

Options:
      --tokens           Print the token table before parsing
      --print            Also print the serialized tree to stdout
  -f, --format <FORMAT>  Output format [default: json]
  -o, --output <OUTPUT>  Output file (default: ast.json / ast.txt in the working directory)
      --list-formats     List supported output formats
  -h, --help             Print help
  -V, --version          Print version
"

def versionText : String := "jamc 0.1.0\n"

end Jam
