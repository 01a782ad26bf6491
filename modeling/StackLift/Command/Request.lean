import StackLift.Command.Grammar
import StackLift.Literal
import StackLift.Project.Program

/-!
# Requests

What a command line asks for. The settings of a program may stand before or
behind the name of the command; those behind it win.

The word that names a revision to show is a setting like any other: it counts as
the option of the same name, so that the option may stand before the command, or
behind it in the place of the word.

## Main definitions

* `CommandName`: The commands.
* `Command`: A command with what belongs to it.
* `Request`: A command with the settings around it.
* `Request.ofArguments?`: The request that a command line makes, if it makes any.
-/

namespace StackLift

/-- The commands. -/
inductive CommandName where
  | disassemble
  | scan
  | lift
  | revisions
deriving DecidableEq, Repr

namespace CommandName

/-- All commands. -/
def all : List CommandName := [disassemble, scan, lift, revisions]

/-- The name of the command. -/
def text : CommandName → String
  | disassemble => "dis"
  | scan => "scan"
  | lift => "lift"
  | revisions => "revisions"

/-- The command of that name. The letters A to Z count as their lower-case
    partners; other letters do not. -/
def ofText? (name : String) : Option CommandName :=
  let lower := name.map Char.toLower
  all.find? (·.text == lower)

end CommandName

/-- What is to be done with lifted code. -/
structure LiftOptions where
  json : Bool
  run : Bool
  /-- How many blocks may be executed. -/
  steps : Option String
  /-- The address of the stack. -/
  stack : Option String
deriving DecidableEq, Repr

/-- A command with what belongs to it. -/
inductive Command where
  | disassemble (address : String)
  /-- List everything that can be reached, from the given addresses if there are
      any. -/
  | scan (addresses : List String)
  | lift (options : LiftOptions)
  /-- List all revisions, or the opcodes of one. -/
  | revisions (name : Option String)
deriving DecidableEq, Repr

/-- A command with the settings around it. -/
structure Request where
  /-- The command. There may be none. -/
  command : Option Command
  projectFile : Option String
  programName : Option String
  settings : Program
deriving DecidableEq, Repr

namespace Request

open CommandLine

/-- The options that may stand before and behind a command. -/
def settingOptions : Options :=
  [("program", .single), ("image", .single), ("revision", .single), ("base", .single),
    ("entry", .repeated), ("project", .single)]

/-- The options of a command. -/
def optionsOf : CommandName → Options
  | .disassemble | .scan | .revisions => settingOptions
  | .lift => settingOptions ++
    [("json", .flag), ("run", .flag), ("steps", .single), ("stack", .single)]

/-- The level behind a command, with the word for a revision as the option that it
    stands for. -/
def nameRevision (l : Level) : Level :=
  { l with
    occurrences := l.occurrences ++ l.words.map fun _ => "revision"
    values := l.values ++ l.words.map ("revision", ·) }

/-- The level behind a command if it is one that the command may have. -/
def checkLevel? (name : CommandName) (l : Level) : Option Level :=
  let fits : Bool := match name with
    | .disassemble => l.words.length = 1
    | .scan | .revisions => true
    | .lift => l.words.isEmpty && (l.has "run" || !(l.has "steps" || l.has "stack"))
  let l := if name = .revisions then nameRevision l else l
  if fits ∧ l.isSound (optionsOf name) then some l else none

/-- The value of a setting, which counts where it stands last. -/
def setting (before behind : Level) (name : String) : Option String :=
  behind.valueOf? name <|> before.valueOf? name

/-- The settings of a program. Texts that are no addresses do not count. -/
def programSettings (before behind : Level) : Program where
  image := setting before behind "image"
  revision := setting before behind "revision"
  base := (setting before behind "base").bind Literal.address?
  entries :=
    let entries := if behind.has "entry" then behind else before
    (entries.valuesOf "entry").filterMap Literal.address?

/-- The command of that name. -/
def commandOf (before behind : Level) : CommandName → Command
  | .disassemble => .disassemble (behind.words.headD "")
  | .scan => .scan behind.words
  | .lift => .lift
      { json := behind.has "json"
        run := behind.has "run"
        steps := behind.valueOf? "steps"
        stack := behind.valueOf? "stack" }
  | .revisions => .revisions (setting before behind "revision")

/-- The request made by the options around a command. -/
def ofLevels (before behind : Level) (name : Option CommandName) : Request where
  command := name.map (commandOf before behind)
  projectFile := setting before behind "project"
  programName := setting before behind "program"
  settings := programSettings before behind

/-- The request that a command line makes, if it makes any. -/
def ofArguments? (arguments : List String) : Option Request := do
  let (before, rest) ← Level.read settingOptions (CommandName.all.map (·.text)) {} arguments
  if ¬before.words.isEmpty ∨ ¬before.isSound settingOptions then none
  else match rest with
    | none => some (ofLevels before {} none)
    | some (word, arguments) =>
      let name ← CommandName.ofText? word
      let (behind, _) ← Level.read (optionsOf name) [] {} arguments
      let behind ← checkLevel? name behind
      some (ofLevels before behind (some name))

end Request

end StackLift
