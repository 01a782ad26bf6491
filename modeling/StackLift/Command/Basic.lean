import StackLift.Command.Report
import StackLift.Command.Request

/-!
# Commands

From a command line to a report. The order of the work decides which of several
failures is reported: arguments, project file, definition files, program,
revision, image, addresses.

## Main definitions

* `Command.perform`: The report of a command.
* `Request.perform`: The report of a request.
* `Response`: The response to a command line.
* `commandLine`: What comes of a command line.
-/

namespace StackLift

/-- The response to a command line. -/
inductive Response where
  /-- The command line makes no request. -/
  | usage
  /-- The report of the request. -/
  | report (r : Report)

namespace Response

/-- The status with which a program ends. -/
def status : Response → Nat
  | usage => 1
  | report r => if r.failure.isSome then 1 else 0

end Response

variable {m : Type → Type} [Monad m]

/-- The report of a computation that may fail. -/
def reportOf (x : ExceptT Failure m Report) : m Report := do
  match ← x.run with
  | .ok r => return r
  | .error f => return .ofFailure f

namespace Command

/-- The revision and the image of a program. -/
def prepare (p : Program) (g : Registry) (read : FileReader m) (root : String) :
    ExceptT Failure m (Revision × Image) := do
  let r ← liftExcept (p.findRevision g)
  let image ← p.readImage read root
  return (r, image)

/-- The report of a command on a program. -/
def perform (p : Program) (g : Registry) (read : FileReader m) (root : String) :
    Command → ExceptT Failure m Report
  | disassemble address => do
    let (r, image) ← prepare p g read root
    let a ← liftExcept (typedAddress address)
    return .ofListing (r.listing image a)
  | scan addresses => do
    let (r, image) ← prepare p g read root
    let entries ←
      if addresses.isEmpty then pure p.entryAddresses
      else liftExcept (addresses.mapM typedAddress)
    return .ofScan (r.scan image entries)
  | lift options => do
    let (r, image) ← prepare p g read root
    let entries := p.entryAddresses
    let blocks := r.liftListings image (r.scan image entries)
    let printed := Report.ofLifting blocks options.json
    if ¬options.run then return printed
    let start := entries.headD p.baseAddress
    match Report.ofExecution r blocks start options.steps options.stack with
    | .ok executed => return printed.append executed
    | .error f => return printed.append (.ofFailure f)
  | revisions (some name) => do
    return .ofOpcodes (← liftExcept ((g.get name).mapError .revision))
  | revisions none => return .ofRevisions g

end Command

namespace Request

/-- The project file that is read if none is named. It need not exist. -/
def defaultProject : String := "vlift.json"

/-- The project of a request. -/
def readProject (q : Request) (read : FileReader m) : ExceptT Failure m Project := do
  match q.projectFile with
  | some path => liftExcept ((Project.ofBytes (← fetch read path)).mapError .document)
  | none => match ← ExceptT.lift (read defaultProject) with
    | .ok bytes => liftExcept ((Project.ofBytes bytes).mapError .document)
    | .error .notFound => return {}
    | .error e => throw (.file e)

/-- The report of a request. -/
def perform (q : Request) (read : FileReader m) : ExceptT Failure m Report := do
  let some command := q.command | throw .unspecifiedCommand
  let root := Path.parent (q.projectFile.getD defaultProject)
  let project ← q.readProject read
  let registry ← project.registry read root
  let program ← liftExcept (project.resolve q.programName q.settings)
  command.perform program registry read root

end Request

/-- What comes of a command line. -/
def commandLine (read : FileReader m) (arguments : List String) : m Response := do
  match Request.ofArguments? arguments with
  | none => return .usage
  | some q => return .report (← reportOf (q.perform read))

end StackLift
