/-!
# Command Line Grammar

Command lines made of options, words and, at the outer level, the name of a
command with a command line of its own.

An option starts with dashes, a text that does not start with a dash is a word,
and so are the single dash and the empty text. The value of an option stands
behind an equals sign or is the next word. Two dashes alone make words of
everything behind them.

## Main definitions

* `Arity`: How often an option may come, and whether it has values.
* `Level`: What has been read at one level.
* `Level.read`: Reads up to the end or to the name of a command.
* `Level.isSound`: No option comes too often or without its value.
-/

namespace StackLift

namespace CommandLine

/-- How often an option may come, and whether it has values. -/
inductive Arity where
  /-- Once, without a value. -/
  | flag
  /-- Once, with a value. -/
  | single
  /-- Any number of times, with a value each. -/
  | repeated
deriving DecidableEq, Repr

/-- The options known at one level. -/
abbrev Options := List (String × Arity)

/-- What has been read at one level. -/
structure Level where
  /-- The name of the option of each occurrence. -/
  occurrences : List String := []
  /-- The values with the names of their options. -/
  values : List (String × String) := []
  words : List String := []
  /-- The option that waits for its value. -/
  pending : Option String := none
  /-- Two dashes alone have been read. -/
  wordsOnly : Bool := false
deriving DecidableEq, Repr

namespace Level

/-- The values of an option, in order. -/
def valuesOf (l : Level) (name : String) : List String :=
  l.values.filterMap fun (n, value) => if n = name then some value else none

/-- The last value of an option. -/
def valueOf? (l : Level) (name : String) : Option String := (l.valuesOf name).getLast?

/-- The option occurs. -/
def has (l : Level) (name : String) : Bool := l.occurrences.contains name

/-- The text starts with a dash and is longer than that. -/
def isDashed (text : String) : Bool := text.startsWith "-" && text != "-"

/-- The name of a long option and the value behind an equals sign. Dashes before
    the name and equals signs before the value do not count. -/
def optionParts (text : String) : String × Option String :=
  let body := text.toList.dropWhile (· = '-')
  match body.dropWhile (· ≠ '=') with
  | [] => (String.ofList body, none)
  | value =>
    (String.ofList (body.takeWhile (· ≠ '=')), some (String.ofList (value.dropWhile (· = '='))))

/-- The level with a further option, if that is known. There are no short
    options. -/
def addOption (options : Options) (l : Level) (text : String) : Option Level :=
  if ¬text.startsWith "--" then none
  else
    let (name, value?) := optionParts text
    let l := { l with occurrences := l.occurrences ++ [name] }
    match options.lookup name, value? with
    | none, _ => none
    | some .flag, _ => some { l with pending := none }
    | some _, some value => some { l with values := l.values ++ [(name, value)], pending := none }
    | some _, none => some { l with pending := some name }

/-- The level with a further word, which may be the value of an option. -/
def addWord (l : Level) (text : String) : Level :=
  match l.pending with
  | some name => { l with values := l.values ++ [(name, text)], pending := none }
  | none => { l with words := l.words ++ [text] }

/-- Reads options and words up to the end, or up to a word that is the name of a
    command. Nothing comes of an option that is not known. -/
def read (options : Options) (commands : List String) (l : Level) :
    List String → Option (Level × Option (String × List String))
  | [] => some (l, none)
  | text :: rest =>
    if l.wordsOnly then
      read options commands { l with words := l.words ++ [text] } rest
    else if text = "--" then read options commands { l with wordsOnly := true } rest
    else if isDashed text then match l.addOption options text with
      | some l => read options commands l rest
      | none => none
    else if l.pending.isNone ∧ text ∈ commands then some (l, some (text, rest))
    else read options commands (l.addWord text) rest

/-- No option comes too often or without its value. -/
def isSound (options : Options) (l : Level) : Bool :=
  options.all fun (name, arity) => match arity with
    | .flag => l.occurrences.count name ≤ 1
    | .single =>
      l.occurrences.count name ≤ 1 && (!l.has name || !(l.valuesOf name).isEmpty)
    | .repeated => !l.has name || !(l.valuesOf name).isEmpty

end Level

end CommandLine

end StackLift
