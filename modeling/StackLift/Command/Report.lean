import StackLift.Execution
import StackLift.Json.Basic
import StackLift.Literal
import StackLift.Project.Basic
import StackLift.Statement.Json
import StackLift.Statement.Text
import StackLift.Text.Column

/-!
# Reports

What the commands print. A command may fail after it has printed something, so a
report is a text together with the failure that ended it, if there was one.

## Main definitions

* `Report`: What was printed, and what went wrong.
* `Report.ofListing`: The block at an address.
* `Report.ofScan`: All blocks that can be reached.
* `Report.ofLifting`: Lifted code as text or as JSON, and what its execution came
  to.
* `Report.ofRevisions`, `Report.ofOpcodes`: All revisions, and the opcodes of one.
-/

namespace StackLift

/-- What was printed, and what went wrong. -/
structure Report where
  /-- What was printed. -/
  text : String
  /-- Why there is no more. -/
  failure : Option Failure := none

/-- Lines one below the other, each of them ended. -/
def unlines (lines : List String) : String := String.join (lines.map (· ++ "\n"))

/-- Paragraphs of lines, with an empty line between them. -/
def paragraphs (ps : List (List String)) : String := "\n".intercalate (ps.map unlines)

/-- An address that someone typed. -/
def typedAddress (text : String) : Except Failure UInt64 :=
  match Literal.address? text with
  | some a => .ok a
  | none => .error (.badAddress text)

namespace Report

/-- The report of a failure that came before anything was printed. -/
def ofFailure (f : Failure) : Report := ⟨"", some f⟩

/-- A report with a further one behind it, which is only asked for if the first
    has not failed. -/
def append (r next : Report) : Report :=
  match r.failure with
  | some _ => r
  | none => ⟨r.text ++ next.text, next.failure⟩

/-- The block at an address. It is a failure if there is not a single
    instruction. -/
def ofListing (l : Listing) : Report :=
  match l.lines, l.error with
  | [], some e => ofFailure (.decode e)
  | _, _ => ⟨unlines l.textLines, none⟩

/-- All blocks that can be reached. -/
def ofScan (ls : Listings) : Report := ⟨paragraphs (ls.values.map Listing.textLines), none⟩

/-- A lifted block as lines of text. -/
def liftedLines (block : Block) (code : Except DecodeError Recording) : List String :=
  (locationLabel block.start ++ ":") :: match code with
    | .ok c => c.entries.toList.map fun (a, s) => Numeral.padded 16 a.toNat ++ "  " ++ s.text
    | .error e => ["; " ++ e.message]

/-- A statement with its address as JSON. -/
def entryJson (entry : UInt64 × Statement) : Json :=
  .object [("address", .word entry.1), ("stmt", entry.2.toJson)]

/-- A lifted block as JSON. -/
def liftedJson (block : Block) (code : Except DecodeError Recording) : Json :=
  let (entries, error?) := match code with
    | .ok c => (c.entries.toList, none)
    | .error e => ([], some e)
  .object <|
    [("start", .word block.start), ("length", .word block.length),
      ("stmts", .list entryJson entries)] ++
    (error?.map fun e => ("error", Json.string e.message)).toList

/-- Where an execution ended, and what it left in the registers. -/
def executionLines (r : Revision) (limit : Nat) (code : UInt64 → Option LiftedBlock)
    (start : Execution.State) : List String :=
  let (final, outcome) := Execution.run code limit start
  ("; " ++ outcome.text limit) :: r.registers.toList.map fun reg =>
    "; " ++ Column.left 5 reg.name ++ " = 0x" ++ Numeral.padded 16 (final.machine.get reg).toNat

/-- How many blocks are executed at most, unless someone says otherwise. -/
def defaultSteps : Nat := 1000

/-- Where the stack is, unless someone says otherwise. -/
def defaultStack : UInt64 := 0x7fff0000

/-- The execution of lifted blocks from an address, with the number of steps and
    the address of the stack that someone typed. -/
def ofExecution (r : Revision) (blocks : List (Block × Except DecodeError Recording))
    (start : UInt64) (steps stack : Option String) : Except Failure Report := do
  let limit ← match steps with
    | some text => match Literal.count? text with
      | some n => .ok n
      | none => .error (.badStepCount text)
    | none => .ok defaultSteps
  let stackTop ← match stack with
    | some text => typedAddress text
    | none => .ok defaultStack
  let code := Execution.codeMap blocks
  let machine := Machine.start r.registers.stackPointer stackTop
  return ⟨unlines (executionLines r limit (code[·]?) ⟨start, machine⟩), none⟩

/-- Lifted code as text or as JSON. -/
def ofLifting (blocks : List (Block × Except DecodeError Recording)) (json : Bool) : Report :=
  if json then ⟨(Json.list (fun b => liftedJson b.1 b.2) blocks).pretty ++ "\n", none⟩
  else ⟨paragraphs (blocks.map fun b => liftedLines b.1 b.2), none⟩

/-- The opcodes of a revision. -/
def ofOpcodes (r : Revision) : Report :=
  ⟨unlines <| r.opcodes.entries.map fun (b, o) =>
    "0x" ++ Numeral.byte b ++ "  " ++ Column.left 6 o.mnemonic ++ "  " ++ o.width.bytes.repr ++
      "  " ++ o.category.title, none⟩

/-- All revisions of a registry. -/
def ofRevisions (g : Registry) : Report :=
  ⟨unlines <| g.revisions.toList.map fun (name, r) =>
    Column.left 12 name ++ "  " ++ Column.left 8 r.branchMode.shortName ++ "  " ++
      " ".intercalate (r.registers.toList.map Register.name), none⟩

end Report

end StackLift
