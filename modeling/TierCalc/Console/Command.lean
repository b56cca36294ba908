import TierCalc.Console.Flag
import TierCalc.Diagnostic.EditDistance
import TierCalc.Text.LowerCase

/-!
# Commands

The commands of the program with their flags, and how arguments name one of them. A command is known by its path: the
words that lead to it from the program itself, whose path is empty.

* `Command.locate` follows the words among arguments from command to command as far as it gets.
* `Command.similar` gives the commands that a word may have been meant for.
-/

namespace TierCalc

/-- How many words a command takes. -/
inductive WordLimit where
  | none
  | atMost (n : Nat)
  | atLeast (n : Nat)
  | any
deriving DecidableEq, Repr

/-- A command of the program. Its description is shown instead of the summary where there is room. A hidden command is
for other programs: it is in no list, and all its arguments are words. -/
structure Command where
  path : List String
  summary : String
  description : String := ""
  operands : String := ""
  aliases : List String := []
  words : WordLimit := .none
  flags : List Flag := []
  runs : Bool := true
  showsFlags : Bool := true
  hidden : Bool := false
deriving DecidableEq, Repr

namespace Command

def program : String := "hotpath"

def name (c : Command) : String := c.path.getLastD program

/-- The words that call a command. -/
def call (c : Command) : String := " ".intercalate (program :: c.path)

/-- The flags that all commands know. -/
def globalFlags : List Flag := [
  { name := "config", kind := .text, usage := "config file (default $HOME/.hotpath.yaml)" },
  { name := "log-level", kind := .text, usage := "log level (trace, debug, info, warn, error)", initial := "warn" },
  { name := "no-color", kind := .bool, usage := "disable colored output" },
  { name := "hot-threshold", kind := .uint, usage := "executions before an expression is compiled" },
  { name := "max-entries", kind := .int, usage := "maximum number of cache entries" },
  { name := "lock-timeout", kind := .duration, usage := "maximum wait for the engine lock" },
  { name := "mode", kind := .text, usage := "execution mode for compiled code (native, simulate)" }]

/-- The word that asks for completions with explanations. -/
def describedRequest : String := "__complete"

/-- The word that asks for completions alone. -/
def bareRequest : String := "__completeNoDesc"

/-- The flag that asks for the help of a command. -/
def helpFlag (c : Command) : Flag :=
  { name := "help", kind := .bool, letter? := some 'h', usage := "help for " ++ c.name }

/-- The flag that chooses the form of the output. -/
def outputFlag : Flag :=
  { name := "output", kind := .text, letter? := some 'o', usage := "output format (json, text)" }

/-- The flag that leaves descriptions out of a script. -/
def bareFlag : Flag := { name := "no-descriptions", kind := .bool, usage := "disable completion descriptions" }

def root : Command :=
  { path := [], summary := "Adaptive JIT for integer expressions", runs := false
    description := "hotpath interprets expressions and compiles the ones that run often to native code." }

/-- The command that generates scripts for a shell. -/
def completion (shell description : String) (showsFlags : Bool := true) : Command :=
  { path := ["completion", shell], summary := "Generate the autocompletion script for " ++ shell
    description := description, flags := [bareFlag], showsFlags := showsFlags }

/-- The lines that end the description of a script. -/
def newShell : String := "\n\nYou will need to start a new shell for this setup to take effect."

/-- The commands, in the order in which they are looked at. -/
def all : List Command := [
  { path := ["eval"], operands := "[expr]", aliases := ["e"], summary := "Evaluate an expression", words := .atMost 1
    flags := [
      { name := "code", kind := .text, letter? := some 'c', usage := "expression to evaluate" },
      { name := "stdin", kind := .bool, usage := "read the expression from stdin" },
      outputFlag,
      { name := "repeat", kind := .int, letter? := some 'n', usage := "number of times to execute the expression"
        initial := "1" },
      { name := "timing", kind := .bool, usage := "show execution time" }] },
  { path := ["dis"], operands := "[expr]", summary := "Show the machine code generated for an expression"
    description := "Generate code for an expression and print its disassembly.\n\n"
      ++ "Variables the expression reads before assigning must be declared with --var,\n"
      ++ "the way they would be present in the engine's environment."
    words := .atMost 1
    flags := [
      { name := "code", kind := .text, letter? := some 'c', usage := "expression to compile" },
      { name := "stdin", kind := .bool, usage := "read the expression from stdin" },
      { name := "var", kind := .texts, usage := "variable available to the expression (repeatable)" },
      { name := "hex", kind := .bool, usage := "also print a hex dump of the code" }] },
  { path := ["serve"], summary := "Serve the HTTP API"
    flags := [{ name := "addr", kind := .text, usage := "listen address", initial := ":8080" }] },
  { path := ["repl"], summary := "Start an interactive session" },
  { path := ["config"], summary := "Print the effective configuration" },
  { path := ["doc"], operands := "[topic]", aliases := ["d"], summary := "Show the language reference"
    description := "Show the language reference.\n\n"
      ++ "The topic may be a category (functions, operators, syntax, errors, engine),\n"
      ++ "a function name, an operator symbol or an error code."
    words := .atMost 1, flags := [outputFlag] },
  { path := ["version"], summary := "Print version information", flags := [outputFlag] },
  { path := ["help"], operands := "[command]", summary := "Help about any command", words := .any
    description := "Help provides help for any command in the application.\n"
      ++ "Simply type hotpath help [path to command] for full details." },
  { path := ["completion"], summary := "Generate the autocompletion script for the specified shell", runs := false
    description := "Generate the autocompletion script for hotpath for the specified shell.\n"
      ++ "See each sub-command's help for details on how to use the generated script." },
  completion "bash"
    ("Generate the autocompletion script for the bash shell.\n\n"
      ++ "This script depends on the 'bash-completion' package.\n"
      ++ "If it is not installed already, you can install it via your OS's package manager.\n\n"
      ++ "To load completions in your current shell session:\n\n"
      ++ "\tsource <(hotpath completion bash)\n\n"
      ++ "To load completions for every new session, execute once:\n\n"
      ++ "#### Linux:\n\n\thotpath completion bash > /etc/bash_completion.d/hotpath\n\n"
      ++ "#### macOS:\n\n\thotpath completion bash > $(brew --prefix)/etc/bash_completion.d/hotpath" ++ newShell)
    false,
  completion "zsh"
    ("Generate the autocompletion script for the zsh shell.\n\n"
      ++ "If shell completion is not already enabled in your environment you will need\n"
      ++ "to enable it.  You can execute the following once:\n\n"
      ++ "\techo \"autoload -U compinit; compinit\" >> ~/.zshrc\n\n"
      ++ "To load completions in your current shell session:\n\n"
      ++ "\tsource <(hotpath completion zsh)\n\n"
      ++ "To load completions for every new session, execute once:\n\n"
      ++ "#### Linux:\n\n\thotpath completion zsh > \"$\x7bfpath[1]\x7d/_hotpath\"\n\n"
      ++ "#### macOS:\n\n\thotpath completion zsh > $(brew --prefix)/share/zsh/site-functions/_hotpath" ++ newShell),
  completion "fish"
    ("Generate the autocompletion script for the fish shell.\n\n"
      ++ "To load completions in your current shell session:\n\n"
      ++ "\thotpath completion fish | source\n\n"
      ++ "To load completions for every new session, execute once:\n\n"
      ++ "\thotpath completion fish > ~/.config/fish/completions/hotpath.fish" ++ newShell),
  completion "powershell"
    ("Generate the autocompletion script for powershell.\n\n"
      ++ "To load completions in your current shell session:\n\n"
      ++ "\thotpath completion powershell | Out-String | Invoke-Expression\n\n"
      ++ "To load completions for every new session, add the output of the above command\n"
      ++ "to your powershell profile."),
  { path := [describedRequest], aliases := [bareRequest], words := .atLeast 1, hidden := true
    summary := "Request shell completion choices for the specified command-line" }]

/-- The commands that a word after a command may name, hidden ones included. -/
def followers (c : Command) : List Command :=
  all.filter fun d => d.path != [] && d.path.dropLast = c.path

/-- The commands after a command that are shown. -/
def children (c : Command) : List Command := c.followers.filter fun d => !d.hidden

/-- The command that a word after a command names. -/
def child? (c : Command) (word : String) : Option Command :=
  c.followers.find? fun d => d.name == word || d.aliases.contains word

/-- The flags that a command knows from the program. -/
def inherited (c : Command) : List Flag := if c.path.isEmpty then [] else globalFlags

/-- The flags of a command's own, without the one for help. -/
def ownFlags (c : Command) : List Flag := if c.path.isEmpty then globalFlags else c.flags

/-- The command that arguments lead to from another one, and the arguments without the words that led there. While a
command is looked for the flag for help is not known. -/
def locateFrom : Nat → Command → List String → Command × List String
  | 0, c, args => (c, args)
  | steps + 1, c, args =>
      match Arguments.firstWord? (c.ownFlags ++ c.inherited) args with
      | none => (c, args)
      | some (word, rest) =>
          match c.child? word with
          | some d => locateFrom steps d rest
          | none => (c, args)

/-- The command that arguments name, and the arguments that are left for it. -/
def locate (args : List String) : Command × List String := locateFrom args.length root args

/-- The word that names no command, if the arguments lead nowhere. -/
def strayWord? (args : List String) : Option String :=
  match locate args with
  | (c, rest) => if c.path.isEmpty then (Arguments.firstWord? globalFlags rest).map (·.1) else none

/-- The names of the commands that are close to a word, or start with it. -/
def similar (word : String) : List String :=
  let bytes (s : String) : Bytes := Bytes.ofString (Text.lower s)
  ((root.children.map (·.name)).filter (· != "help")).filter fun n =>
    EditDistance.distance (bytes word) (bytes n) ≤ 2 || (bytes word).isPrefixOf (bytes n)

end Command

end TierCalc
