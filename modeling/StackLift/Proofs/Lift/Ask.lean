import StackLift.Proofs.Lift.Code

/-!
# What Lifting Asks of a Sink

Lifting asks every sink for the same statements in the same way.

`Revision.lift` is written against any sink whatever, with handles that mean nothing
to it. What ties one sink to another is the order of its requests. A statement can be
asked for in one canonical order, each expression behind its operands, the left
operand before the right one, and the statement last; `Statement.ask` does that by
recursion over the tree. Lifting an instruction turns out to be asking for the
statements of its code one after the other, for each category and under both pop
orders, and whichever monad the sink lives in. So whatever is to be said about the
requests of an instruction can be said about trees, by induction.

## Main definitions

* `Expression.ask`: An expression asked for behind its operands.
* `Statement.ask`: A statement asked for behind its expressions.

## Theorems

* `lift_eq_forM_ask`: Lifting asks for the statements of the code, in their order.
* `liftAt_eq_forM_ask`: The same from a window, and nothing if it does not decode.
-/

namespace StackLift

variable {m : Type → Type} {ε : Type} [Monad m] [Sink m ε]

/-- Asks a sink for an expression, for its operands first and from left to right. -/
def Expression.ask : Expression → m ε
  | .const width value => Sink.constant width value
  | .reg width r => Sink.reg width r
  | .pop width => Sink.pop width
  | .load width address => do
    let a ← address.ask
    Sink.load width a
  | .binary op width left right => do
    let a ← left.ask
    let b ← right.ask
    Sink.binary op width a b

/-- Asks a sink for a statement, for its expressions first and from left to right. -/
def Statement.ask : Statement → m Unit
  | .nop => Sink.nop
  | .push width value => do
    let v ← value.ask
    Sink.push width v
  | .setReg width r value => do
    let v ← value.ask
    Sink.setReg width r v
  | .store width address value => do
    let a ← address.ask
    let v ← value.ask
    Sink.store width a v
  | .jump target => do
    let t ← target.ask
    Sink.jump t
  | .ret => Sink.ret

namespace Revision

variable [LawfulMonad m]

/-- Lifting an instruction asks for the statements of its code, one after the other.
    No request is moved past another, which is all that a sink can tell. -/
theorem lift_eq_forM_ask (r : Revision) (i : Instruction) :
    (r.lift i : m Unit) = forM (r.code i) Statement.ask := by
  unfold lift code
  -- In each category the two sides differ in how the requests are nested, no more.
  cases i.category with
  | stackBinaryOp op =>
      by_cases hop : op.isOrderSensitive = true
      · simp only [hop, if_true, popInto, Register.width, List.forM_cons, List.forM_nil,
          Statement.ask, Expression.ask, bind_assoc, bind_pure_unit]
      · simp only [hop, Bool.false_eq_true, if_false, Register.width, List.forM_cons,
          List.forM_nil, Statement.ask, Expression.ask, bind_assoc, bind_pure_unit]
  | unconditionalBranch =>
      cases r.branchTarget? i with
      | none => simp only [List.forM_cons, List.forM_nil, Statement.ask, bind_pure_unit]
      | some t =>
          simp only [Register.width, List.forM_cons, List.forM_nil, Statement.ask,
            Expression.ask, bind_pure_unit]
  | _ =>
      simp only [popInto, Register.width, List.forM_cons, List.forM_nil, Statement.ask,
        Expression.ask, bind_assoc, bind_pure_unit]

/-- Lifting what a window starts with asks for the code of the instruction there. If
    there is none, nothing is asked. -/
theorem liftAt_eq_forM_ask (r : Revision) (address : UInt64) (window : List UInt8) :
    (r.liftAt address window : m (Except DecodeError Nat)) = do
      forM ((r.decode address window).toOption.elim [] r.code) Statement.ask
      return (r.decode address window).map Instruction.length := by
  unfold liftAt
  cases r.decode address window with
  | error e =>
      simp only [Except.toOption, Option.elim_none, List.forM_nil, pure_bind]
      rfl
  | ok i =>
      simp only [Except.toOption, Option.elim_some, lift_eq_forM_ask]
      rfl

end Revision

end StackLift
