import StackLift.Instruction.Basic
import StackLift.Lift.Sink

/-!
# Lifting

What an instruction means, as code for a sink. Every value is as wide as a
register, except the immediate of a register-relative address, which is as wide
as it is encoded.

An operator whose result does not depend on the order of its operands works on
two values straight off the stack. All others go through the operand holders, so
that the order in which the two values are popped is spelled out, and so does a
store.

## Main definitions

* `Revision.baseRegister`: The register that an address is computed from.
* `Revision.holders`: The operand holders in the order in which they are filled.
* `Revision.lift`: The meaning of an instruction.
* `Revision.liftAt`: The meaning of the instruction at the start of a window.
-/

namespace StackLift

namespace Revision

/-- The register that a register-relative address is computed from. Where the
    arguments are split, the first one has a register of its own. -/
def baseRegister (r : Revision) (base : AddressBase) (operand : UInt64) : Register :=
  match base with
  | .registerFile => .vreg
  | .argument => match r.registers.argumentBase with
    | .split => if operand = 0 then .varg1 else .varg2
    | .single | .absent => .varg

/-- The operand holders in the order in which an operator fills them. -/
def holders (r : Revision) (op : Operator) : Register × Register :=
  match r.popOrder op with
  | .leftFirst => (.vlhs, .vrhs)
  | .rightFirst => (.vrhs, .vlhs)

variable {m : Type → Type} {ε : Type} [Monad m] [Sink m ε]

/-- Fills two registers with the two values on top of the stack. -/
def popInto (first second : Register) : m Unit := do
  Sink.setReg Register.width first (← Sink.pop Register.width)
  Sink.setReg Register.width second (← Sink.pop Register.width)

/-- The meaning of an instruction. -/
def lift (r : Revision) (i : Instruction) : m Unit := do
  let w := Register.width
  let operand := i.operand?.getD 0
  match i.category with
  | .nop => Sink.nop
  | .stackPush => Sink.push w (← Sink.constant w operand)
  | .registerRelativeAddress base =>
    let start ← Sink.reg w (r.baseRegister base operand)
    let offset ← Sink.constant (UInt64.ofNat i.opcode.width.bytes) operand
    Sink.push w (← Sink.binary .add w start offset)
  | .stackBinaryOp op =>
    if op.isOrderSensitive then
      popInto (r.holders op).1 (r.holders op).2
      let left ← Sink.reg w .vlhs
      let right ← Sink.reg w .vrhs
      Sink.push w (← Sink.binary op w left right)
    else
      let left ← Sink.pop w
      let right ← Sink.pop w
      Sink.push w (← Sink.binary op w left right)
  | .memoryRead =>
    let address ← Sink.pop w
    Sink.push w (← Sink.load w address)
  | .memoryWrite =>
    popInto .vlhs .vrhs
    let address ← Sink.reg w .vlhs
    let value ← Sink.reg w .vrhs
    Sink.store w address value
  | .unconditionalBranch => match r.branchTarget? i with
    | some target => Sink.jump (← Sink.constant w target)
    | none => Sink.nop
  | .ret => Sink.ret

/-- The meaning of the instruction at the start of a window that lies at
    `address`. Answers with the instruction's length. Where there is no
    instruction, nothing is asked of the sink. -/
def liftAt (r : Revision) (address : UInt64) (window : List UInt8) :
    m (Except DecodeError Nat) :=
  match r.decode address window with
  | .error e => pure (.error e)
  | .ok i => do
    r.lift i
    return .ok i.length

end Revision

end StackLift
