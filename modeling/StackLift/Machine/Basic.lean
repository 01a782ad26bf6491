import StackLift.Machine.Memory
import StackLift.Statement.Basic

/-!
# Machines

Machines that execute lifted code. A machine has the seven registers, all of
them zero at first, and a memory; one of its registers addresses the stack,
which grows towards lower addresses. Putting a value onto the stack moves the
stack pointer down and then stores, taking one off loads and then moves it up.

## Main definitions

* `Registers`: The contents of the registers.
* `Machine`: Registers, memory and the register that addresses the stack.
* `Machine.push`, `Machine.pop`: The two stack operations.
* `Machine.eval`: The value of an expression, and the machine after it.
* `Machine.execute`: What a statement does to control and machine.
* `Machine.run`: Statements one after the other, up to the first that passes
  control on.

## Theorems

* `get_set`: The register that was set last holds what it was set to.
-/

namespace StackLift

/-- The contents of the registers. -/
structure Registers where
  vsp : UInt64 := 0
  varg : UInt64 := 0
  varg1 : UInt64 := 0
  varg2 : UInt64 := 0
  vreg : UInt64 := 0
  vlhs : UInt64 := 0
  vrhs : UInt64 := 0
deriving DecidableEq, Repr

namespace Registers

/-- What a register holds. -/
def get (s : Registers) : Register → UInt64
  | .vsp => s.vsp
  | .varg => s.varg
  | .varg1 => s.varg1
  | .varg2 => s.varg2
  | .vreg => s.vreg
  | .vlhs => s.vlhs
  | .vrhs => s.vrhs

/-- The registers with one of them changed. -/
def set (s : Registers) (r : Register) (value : UInt64) : Registers :=
  match r with
  | .vsp => { s with vsp := value }
  | .varg => { s with varg := value }
  | .varg1 => { s with varg1 := value }
  | .varg2 => { s with varg2 := value }
  | .vreg => { s with vreg := value }
  | .vlhs => { s with vlhs := value }
  | .vrhs => { s with vrhs := value }

theorem get_set (s : Registers) (r t : Register) (value : UInt64) :
    (s.set r value).get t = if r = t then value else s.get t := by
  cases r <;> cases t <;> rfl

end Registers

/-- What a statement does to the flow of control. -/
inductive Control where
  /-- The next statement is executed. -/
  | proceed
  /-- Control goes to an address. -/
  | jump (target : UInt64)
  /-- The procedure is left. -/
  | ret
deriving DecidableEq, Repr

/-- A machine that executes lifted code. -/
structure Machine where
  /-- The register that addresses the stack. -/
  stackPointer : Register
  registers : Registers
  memory : Memory

namespace Machine

/-- A machine with an empty memory and nothing in its registers but the address
    of the stack. -/
def start (stackPointer : Register) (stackTop : UInt64) : Machine where
  stackPointer
  registers := ({} : Registers).set stackPointer stackTop
  memory := ∅

/-- What a register holds. -/
def get (m : Machine) (r : Register) : UInt64 := m.registers.get r

/-- The machine with one register changed. -/
def set (m : Machine) (r : Register) (value : UInt64) : Machine :=
  { m with registers := m.registers.set r value }

/-- The machine with a word stored at an address. -/
def store (m : Machine) (a width value : UInt64) : Machine :=
  { m with memory := m.memory.store a width value }

/-- The machine with a value put onto the stack. -/
def push (m : Machine) (width value : UInt64) : Machine :=
  let top := m.get m.stackPointer - width
  (m.set m.stackPointer top).store top width value

/-- The value on top of the stack, and the machine without it. -/
def pop (m : Machine) (width : UInt64) : UInt64 × Machine :=
  let top := m.get m.stackPointer
  (m.memory.load top width, m.set m.stackPointer (top + width))

/-- The value of an expression, and the machine after the values it takes off
    the stack. Constants, registers and the results of operators are cut to
    their width. -/
def eval : Expression → Machine → UInt64 × Machine
  | .const width value, m => (value &&& Word.mask width, m)
  | .reg width r, m => (m.get r &&& Word.mask width, m)
  | .pop width, m => m.pop width
  | .load width address, m =>
    let (a, m) := eval address m
    (m.memory.load a width, m)
  | .binary op width left right, m =>
    let (a, m) := eval left m
    let (b, m) := eval right m
    (op.apply a b &&& Word.mask width, m)

/-- What a statement does to the flow of control, and the machine after it. -/
def execute : Statement → Machine → Control × Machine
  | .nop, m => (.proceed, m)
  | .push width value, m =>
    let (v, m) := eval value m
    (.proceed, m.push width v)
  | .setReg width r value, m =>
    let (v, m) := eval value m
    (.proceed, m.set r (v &&& Word.mask width))
  | .store width address value, m =>
    let (a, m) := eval address m
    let (v, m) := eval value m
    (.proceed, m.store a width v)
  | .jump target, m =>
    let (a, m) := eval target m
    (.jump a, m)
  | .ret, m => (.ret, m)

/-- Executes statements one after the other, up to the first that passes control
    on. -/
def run : List Statement → Machine → Control × Machine
  | [], m => (.proceed, m)
  | s :: ss, m => match execute s m with
    | (.proceed, m) => run ss m
    | (.jump a, m) => (.jump a, m)
    | (.ret, m) => (.ret, m)

end Machine

end StackLift
