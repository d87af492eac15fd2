import Headfirst.CommandLine.Options

namespace Headfirst.CommandLine

/-! The texts about the program itself. -/

def versionText : String := program ++ " 0.1.0\n"

def overview : String :=
  "usage: sonic-spin [-h] [--version] <command> ...

Rewrite postfix control constructs into prefix form.

options:
  -h, --help  show this help message and exit
  --version   show program's version number and exit

commands:
  available commands

  <command>
    rewrite   Rewrite a source file
    check     Report diagnostics without writing output
    tokens    Dump the token tree of a source file

examples:
  sonic-spin rewrite src/main.rs
  sonic-spin rewrite snippet.rs --whole -o out.rs
  sonic-spin check src/main.rs --diagnostics json
  sonic-spin tokens snippet.rs --compact
"

def commonHelp : String :=
  "positional arguments:
  input                 Input source file (use '-' for stdin)

options:
  -h, --help            show this help message and exit
  --diagnostics \x7bgcc,json\x7d
                        Diagnostic output format (default: gcc)
  -v, --verbose         Increase log verbosity (repeatable)
  -q, --quiet           Only report errors
"

def frontHelp : String :=
  "  --max-rewrites N      Abort after N rewrites (default: 10000)
  --max-passes N        Abort after N passes (default: 16)
  --no-parens           Do not parenthesize compound operands
  --tolerate-malformed  Leave malformed occurrences untouched and report them
                        as warnings
  --macro NAME          Rewrite the bodies of NAME!(...) invocations (default:
                        sonic_spin)
  --whole               Rewrite the entire input as one invocation
"

def Command.help : Command → String
  | front =>
      "usage: sonic-spin rewrite [-h] [--diagnostics \x7bgcc,json\x7d] [-v | -q]
                          [--max-rewrites N] [--max-passes N] [--no-parens]
                          [--tolerate-malformed] [--macro NAME | --whole]
                          [-o OUTPUT]
                          input

Rewrite every postfix construct of the input and write the result to stdout or
the --output file.

" ++ commonHelp ++ frontHelp ++
        "  -o OUTPUT, --output OUTPUT
                        Output file (default: stdout)
"
  | check =>
      "usage: sonic-spin check [-h] [--diagnostics \x7bgcc,json\x7d] [-v | -q]
                        [--max-rewrites N] [--max-passes N] [--no-parens]
                        [--tolerate-malformed] [--macro NAME | --whole]
                        input

" ++ commonHelp ++ frontHelp
  | tokens =>
      "usage: sonic-spin tokens [-h] [--diagnostics \x7bgcc,json\x7d] [-v | -q] [--compact]
                         [--locations]
                         input

" ++ commonHelp ++
        "  --compact             Print the tokens on one line instead of as a tree
  --locations           Show line:column of every node
"

def helpText (about : Option Command) : String :=
  about.elim overview Command.help

end Headfirst.CommandLine
