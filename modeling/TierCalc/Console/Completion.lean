import TierCalc.Console.Command
import TierCalc.Console.Script.Bash
import TierCalc.Console.Script.Fish
import TierCalc.Console.Script.PowerShell
import TierCalc.Console.Script.Zsh

/-!
# Completion

What may stand in place of the last, unfinished argument of a command line: names of commands, flags, or values of a
flag. Shells ask for these choices through a hidden command, and the scripts that make them ask are output of the program
too.

* `Completion.ofCommandLine` gives the choices for the last of the arguments.
* `Completion.text` writes them for a script: a line for each, and a closing line that tells whether files may be
  offered instead.
-/

namespace TierCalc

/-- A word that may be typed, with what it is for. -/
structure Choice where
  word : String
  meaning : String := ""
deriving DecidableEq, Repr

/-- The choices for an unfinished argument, and whether files may be offered where there are none. -/
structure Completion where
  choices : List Choice := []
  files : Bool := true
deriving DecidableEq, Repr

namespace Completion

/-- The unfinished argument: the flag whose value it is, if it is one, the arguments before it that count, and what is
typed so far. -/
structure Subject where
  flag? : Option Flag := none
  before : List String
  typed : String
deriving DecidableEq, Repr

/-- The flag that a name stands for; a name of one byte is a letter. -/
def flag? (flags : List Flag) (name : String) : Option Flag :=
  if name.utf8ByteSize = 1 then flags.find? fun f => f.letter? == name.toList.head?
  else flags.find? (·.name == name)

/-- Whether an argument is a flag. -/
def isFlag (arg : String) : Bool :=
  match arg.toList with
  | '-' :: '-' :: _ :: _ => true
  | '-' :: c :: _ => c != '-'
  | _ => false

/-- The last letter of a run of letters, if it is one byte. -/
def lastLetter (cs : List Char) : String := String.ofList (cs.getLast?.toList)

/-- The name of the flag that an argument gives: what follows two dashes, or the last letter after one. -/
def flagName (cs : List Char) : String :=
  match cs with
  | '-' :: '-' :: name => String.ofList name
  | cs => lastLetter cs

/-- The subject for which the argument before decides: a flag that takes a value has the unfinished argument for it. -/
def afterFlag (flags : List Flag) (before : List String) (typed : String) (given : Bool) : Option Subject :=
  let plain : Subject := { before, typed }
  match before.getLast? with
  | none => some plain
  | some arg =>
      if !isFlag arg || arg.toList.contains '=' then some plain
      else
        match flag? flags (flagName arg.toList) with
        | none => none
        | some f =>
            if f.kind = .bool && !given then some plain
            else some { flag? := some f, before := before.dropLast, typed }

/-- What the unfinished argument is. A flag that the command does not know gives none. -/
def subject? (flags : List Flag) (before : List String) (arg : String) : Option Subject :=
  let cs := arg.toList
  if cs.head? != some '-' then afterFlag flags before arg false
  else if !cs.contains '=' then some { before, typed := arg }
  else
    let typed := String.ofList ((cs.dropWhile (· != '=')).drop 1)
    match flagName (cs.takeWhile (· != '=')) with
    | "" => afterFlag flags before typed true
    | name => (flag? flags name).map fun f => { flag? := some f, before, typed }

/-- The names of a flag that start with what is typed. -/
def ofFlag (typed : String) (f : Flag) : List Choice :=
  (("--" ++ f.name) :: (f.letter?.map fun c => "-" ++ c.toString).toList).filterMap fun word =>
    if word.startsWith typed then some { word, meaning := f.usage } else none

/-- The flags that may still be given, by name. A flag that takes several texts may be given again. -/
def ofFlags (a : Arguments) (typed : String) (flags : List Flag) : List Choice :=
  let still := flags.filter fun f => !a.has f.name || f.kind = .texts
  (still.mergeSort fun f g => f.name ≤ g.name).flatMap (ofFlag typed)

/-- The commands after a command that start with what is typed, by name. -/
def ofCommands (typed : String) (c : Command) : List Choice :=
  let fitting := c.children.filter (·.name.startsWith typed)
  (fitting.mergeSort fun d e => d.name ≤ e.name).map fun d => { word := d.name, meaning := d.summary }

/-- The words that a command takes, where it says which. -/
def ofWords? (c : Command) (words : List String) (typed : String) : Option Completion :=
  match c.path with
  | ["help"] =>
      some { files := false
             choices := if (Command.strayWord? words).isSome then [] else ofCommands typed (Command.locate words).1 }
  | "completion" :: _ => some { files := false }
  | _ => none

/-- The values of a flag, where its command says which. -/
def ofValue (c : Command) (f : Flag) : Completion :=
  if c.path = ["eval"] ∧ f.name = "output" then { choices := [⟨"json", ""⟩, ⟨"text", ""⟩], files := false } else {}

/-- The flags of a command that may still be given and start with what is typed: those of the program first. -/
def ofFlagNames (c : Command) (a : Arguments) (typed : String) : Completion :=
  { files := false
    choices := ofFlags a typed c.inherited ++ ofFlags a typed (c.ownFlags ++ [c.helpFlag]) }

/-- Whether what is typed is the name of a flag so far. -/
def startsFlag (typed : String) : Bool := typed.startsWith "-" && !typed.toList.contains '='

/-- The completion of a subject for a command whose arguments before it have been read. Where `flagsEnd` says so, two
dashes stand before it and it is a word. -/
def ofSubject (c : Command) (a : Arguments) (s : Subject) (flagsEnd : Bool) : Completion :=
  match s.flag? with
  | some f => if flagsEnd then (ofWords? c a.words s.typed).getD {} else ofValue c f
  | none =>
      if startsFlag s.typed && !flagsEnd then ofFlagNames c a s.typed
      else
        let commands : Completion :=
          if c.children.isEmpty || !a.words.isEmpty then {} else { choices := ofCommands s.typed c, files := false }
        match ofWords? c a.words s.typed with
        | some more => { more with choices := commands.choices ++ more.choices }
        | none => commands

/-- The completion of the last of the arguments of a command. Arguments that cannot be read have none, and after a request
for help nothing follows. -/
def ofArguments (c : Command) (before : List String) (arg : String) : Completion :=
  let flags := c.ownFlags ++ c.inherited ++ [c.helpFlag]
  let found := subject? flags before arg
  let s := found.getD { before, typed := arg }
  match Arguments.parse flags s.before, Arguments.parse flags (s.before ++ ["--"]) with
  | .ok a, .ok b =>
      let flagsEnd := a.words.length < b.words.length
      if found.isNone && !flagsEnd then {}
      else if a.has "help" then { files := false }
      else ofSubject c a s flagsEnd
  | _, _ => {}

/-- The completion of the last of the arguments of the program. A hidden command reads no flags, and all of them may
follow it. -/
def ofCommandLine (args : List String) : Completion :=
  let before := args.dropLast
  let typed := args.getLastD ""
  if (Command.strayWord? before).isSome then {}
  else
    let (c, rest) := Command.locate before
    if !c.hidden then ofArguments c rest typed
    else if startsFlag typed then ofFlagNames c {} typed
    else {}

/-- A completion as scripts read it. -/
def text (c : Completion) (described : Bool) : String :=
  let line (x : Choice) : String := x.word ++ (if described && x.meaning != "" then "\t" ++ x.meaning else "") ++ "\n"
  String.join (c.choices.map line) ++ (if c.files then ":0\n" else ":4\n")

/-- The script that makes a shell ask for completions. -/
def script (shell : String) (described : Bool) : String :=
  let request := if described then Command.describedRequest else Command.bareRequest
  let lines :=
    match shell with
    | "bash" => Script.bash request
    | "zsh" => Script.zsh request
    | "fish" => Script.fish request
    | "powershell" => Script.powerShell request
    | _ => []
  String.join (lines.map (· ++ "\n"))

end Completion

end TierCalc
