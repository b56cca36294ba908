import TierCalc.Console.Command

/-!
# Help

What a command is for and how it is used: its words and flags, the commands after it, and the flags that all commands
know. Flags and commands are listed by name, and their explanations start in one column.
-/

namespace TierCalc

namespace Flag

/-- What a list of flags calls the value of a flag. -/
def valueName (f : Flag) : String :=
  match f.kind with
  | .text => " string"
  | .texts => " strings"
  | .bool => ""
  | .int => " int"
  | .uint => " uint"
  | .duration => " duration"

/-- The names of a flag in a list. -/
def listed (f : Flag) : String :=
  (match f.letter? with
  | some c => "  -" ++ c.toString ++ ", --"
  | none => "      --") ++ f.name ++ f.valueName

/-- The explanation of a flag in a list. -/
def explained (f : Flag) : String :=
  f.usage ++
    if f.initial == "" then ""
    else if f.kind = .text then " (default " ++ Quoted.text f.initial ++ ")"
    else " (default " ++ f.initial ++ ")"

def list (flags : List Flag) : String :=
  let flags := flags.mergeSort fun a b => a.name ≤ b.name
  let width := ((flags.map (·.listed.length)).max?).getD 0
  "\n".intercalate (flags.map fun f =>
    f.listed ++ Numeral.blanks (width - f.listed.length + 3) ++ f.explained)

end Flag

namespace Command

/-- The line that shows how a command is called. -/
def usageLine (c : Command) : String :=
  c.call ++ (if c.operands == "" then "" else " " ++ c.operands) ++ if c.showsFlags then " [flags]" else ""

def list (commands : List Command) : String :=
  let commands := commands.mergeSort fun a b => a.name ≤ b.name
  let width := max 11 (((commands.map (·.name.length)).max?).getD 0)
  String.join (commands.map fun c =>
    "\n  " ++ c.name ++ Numeral.blanks (width - c.name.length) ++ " " ++ c.summary)

/-- How a command is used, with the given flags of its own. -/
def usage (c : Command) (flags : List Flag) : String :=
  let some? (present : Bool) (s : String) : String := if present then s else ""
  let leads := !c.children.isEmpty
  "Usage:"
    ++ some? c.runs ("\n  " ++ c.usageLine)
    ++ some? leads ("\n  " ++ c.call ++ " [command]")
    ++ some? (!c.aliases.isEmpty) ("\n\nAliases:\n  " ++ ", ".intercalate (c.name :: c.aliases))
    ++ some? leads ("\n\nAvailable Commands:" ++ list c.children)
    ++ some? (!flags.isEmpty) ("\n\nFlags:\n" ++ Flag.list flags)
    ++ some? (!c.inherited.isEmpty) ("\n\nGlobal Flags:\n" ++ Flag.list c.inherited)
    ++ some? leads ("\n\nUse \"" ++ c.call ++ " [command] --help\" for more information about a command.")
    ++ "\n"

def help (c : Command) : String :=
  (if c.description == "" then c.summary else c.description) ++ "\n\n" ++ c.usage (c.ownFlags ++ [c.helpFlag])

/-- Whether a text can stand between backquotes as it is. -/
def isQuotable (s : String) : Bool :=
  s.toList.all fun c => (' ' ≤ c || c == '\t') && c != '`' && c != '\x7f' && c != '\ufeff'

/-- Words as a message about them shows them. -/
def quotedWords (words : List String) : String :=
  "[" ++ " ".intercalate (words.map fun w => if isQuotable w then "`" ++ w ++ "`" else Quoted.text w) ++ "]"

/-- The help that words ask for. Words that name no command are told, with how the program is used. -/
def helpFor (words : List String) : String :=
  let c := (locate words).1
  if (strayWord? words).isSome || c.hidden then
    "Unknown help topic " ++ quotedWords words ++ "\n" ++ root.usage root.ownFlags
  else c.help

end Command

end TierCalc
