import StackLift.Revision.Builtin

/-!
# Registries

The revisions known by name. A registry only ever grows: a name that is bound
stays bound to the same revision, and nothing enters that is not a revision
under its own name.

## Main definitions

* `RevisionError`: Why a revision cannot be had.
* `Registry`: Revisions by name.
* `Registry.builtins`: The registry of the built-in revisions.
* `Registry.Change`: What is done to a registry, and may fail.
* `Registry.Change.enter`, `Registry.Change.define`: A further revision is
  entered, given as such or by its definition.
* `Registry.insert`, `Registry.register`: The registry after that.
* `Registry.get`: The revision of a name.
* `Registry.names`: The names in increasing order.
-/

namespace StackLift

/-- Why a revision cannot be had. -/
inductive RevisionError where
  /-- The definition contradicts itself. -/
  | inconsistent (revision : String) (reason : Inconsistency)
  /-- The name is bound already. -/
  | alreadyRegistered (name : String)
  /-- The name is not bound. -/
  | notRegistered (name : String)
deriving DecidableEq, Repr

namespace RevisionError

/-- What went wrong, in words. -/
def message : RevisionError → String
  | inconsistent revision reason => s!"revision {revision} is inconsistent: {reason.message}"
  | alreadyRegistered name => s!"revision {name} is already registered"
  | notRegistered name => s!"revision {name} is not registered"

end RevisionError

namespace Definition

/-- The revision described, with an error that says whose definition is at
    fault. -/
def revision (d : Definition) : Except RevisionError Revision :=
  (Revision.ofDefinition d).mapError (.inconsistent d.name)

end Definition

/-- Revisions by name. -/
structure Registry where
  /-- The revision bound to each name. -/
  revisions : Std.ExtTreeMap String Revision

namespace Registry

instance : EmptyCollection Registry := ⟨⟨∅⟩⟩

/-- The name is bound. -/
def isBound (g : Registry) (name : String) : Bool := g.revisions.contains name

/-- The registry of the built-in revisions. -/
def builtins : Registry where
  revisions := .ofList <| BuiltinRevision.all.filterMap fun b =>
    b.revision.toOption.map (b.name, ·)

/-- What is done to a registry, and may fail. A change that fails leaves a registry
    as well, which need not be the one it found as far as this type goes. -/
abbrev Change := ExceptT RevisionError (StateM Registry)

namespace Change

/-- Enters a revision under its own name. -/
def enter (r : Revision) : Change Revision := do
  if (← get).isBound r.name then
    throw (.alreadyRegistered r.name)
  modify fun g => ⟨g.revisions.insert r.name r⟩
  return r

/-- Enters the revision that a definition describes. The name is looked at first,
    so that a definition under a bound name is turned down for its name whatever
    else is wrong with it. -/
def define (d : Definition) : Change Revision := do
  if (← get).isBound d.name then
    throw (.alreadyRegistered d.name)
  enter (← MonadExcept.ofExcept d.revision)

/-- The result of a change or the error, and the registry it leaves. -/
def on {α : Type} (c : Change α) (g : Registry) : Except RevisionError α × Registry :=
  c.run.run g

/-- The registry after a change that succeeds. -/
def outcome {α : Type} (c : Change α) (g : Registry) : Except RevisionError Registry :=
  match c.on g with
  | (.ok _, g) => .ok g
  | (.error e, _) => .error e

end Change

/-- The registry with a further revision under its own name. -/
def insert (g : Registry) (r : Revision) : Except RevisionError Registry :=
  (Change.enter r).outcome g

/-- The registry with the revision that a definition describes. -/
def register (g : Registry) (d : Definition) : Except RevisionError Registry :=
  (Change.define d).outcome g

/-- The revision of a name. -/
def get (g : Registry) (name : String) : Except RevisionError Revision :=
  match g.revisions[name]? with
  | some r => .ok r
  | none => .error (.notRegistered name)

/-- The bound names in increasing order. -/
def names (g : Registry) : List String := g.revisions.keys

end Registry

end StackLift
