import StackLift.Lift.Trace
import StackLift.Proofs.Lift.Ask

/-!
# Handles

Every handle that lifting is given is used once.

The requests for a tree are its nodes in postfix order: a node takes the handles of its
operands, which are the last ones that were given and not yet taken, and the handle of
the node itself comes in their place. So the handles in hand are a stack at any time.
A statement leaves it as it was, and with that nothing is left over at the end of an
instruction, nor is any handle taken that is not in hand.

A sink may therefore put off what is behind a handle until the handle is taken, without
having to keep its value for a second time.

## Main definitions

* `SinkCall.given`, `SinkCall.taken`: The handles that a call gives and takes.
* `SinkCall.TakesEachOnce`: Each handle is taken once, behind the call that gives it.
* `SinkCall.Postfix`: Calls that use the handles in hand as a stack.
* `Trace.Holds`: A trace with handles in hand.

## Theorems

* `Postfix.takesEachOnce`: Calls in postfix order take each handle once.
* `Trace.Holds.ask`: Asking for an expression puts its handle on the stack.
* `Trace.Holds.ask_statement`: Asking for a statement leaves the stack as it was.
* `takesEachOnce_calls_liftAt`: Lifting takes each handle once.
-/

namespace StackLift

namespace SinkCall

/-- The handles that a call gives, which is one for an expression. -/
def given : SinkCall → List Nat
  | constant h _ _ | reg h _ _ | pop h _ | load h _ _ | binary h _ _ _ _ => [h]
  | nop | push _ _ | setReg _ _ _ | store _ _ _ | jump _ | ret => []

/-- The handles that a call takes. -/
def taken : SinkCall → List Nat
  | load _ _ h | push _ h | setReg _ _ h | jump h => [h]
  | binary _ _ _ left right => [left, right]
  | store _ address value => [address, value]
  | constant _ _ _ | reg _ _ _ | pop _ _ | nop | ret => []

/-- No handle is given twice. No call takes a handle before it is given, nor does the one
    that gives it, and the calls behind take it once. -/
structure TakesEachOnce (calls : List SinkCall) : Prop where
  nodup_given : (calls.flatMap given).Nodup
  taken_once : ∀ before call behind, calls = before ++ call :: behind → ∀ h ∈ call.given,
    (∀ c ∈ before ++ [call], h ∉ c.taken) ∧ (behind.flatMap taken).count h = 1

/-- Calls that take handles off a stack, the last operand first, and put those they give
    onto it. The stack is the first list before the calls and the second one after them. -/
inductive Postfix : List Nat → List SinkCall → List Nat → Prop
  | nil (st : List Nat) : Postfix st [] st
  | cons {st st' : List Nat} {c : SinkCall} {cs : List SinkCall} :
    Postfix (c.given ++ st) cs st' → Postfix (c.taken.reverse ++ st) (c :: cs) st'

namespace Postfix

variable {st mid st' : List Nat} {c : SinkCall} {cs xs ys : List SinkCall}

theorem append (hxs : Postfix st xs mid) (hys : Postfix mid ys st') :
    Postfix st (xs ++ ys) st' := by
  induction hxs with
  | nil => exact hys
  | cons _ ih => exact cons (ih hys)

theorem snoc (h : Postfix st cs (c.taken.reverse ++ st')) :
    Postfix st (cs ++ [c]) (c.given ++ st') :=
  h.append (cons (nil _))

theorem exists_of_append (h : Postfix st (xs ++ ys) st') :
    ∃ mid, Postfix st xs mid ∧ Postfix mid ys st' := by
  induction xs generalizing st with
  | nil => exact ⟨st, nil st, h⟩
  | cons x xs ih =>
      cases h with
      | cons h =>
          rcases ih h with ⟨mid, hxs, hys⟩
          exact ⟨mid, cons hxs, hys⟩

/-- A handle in hand or given is taken or still in hand. -/
theorem count_add_count (h : Postfix st cs st') (k : Nat) :
    st.count k + (cs.flatMap given).count k = st'.count k + (cs.flatMap taken).count k := by
  induction h with
  | nil => rfl
  | cons _ ih =>
      simp only [List.count_append] at ih
      simp only [List.flatMap_cons, List.count_append, List.count_reverse]
      omega

/-- Calls in postfix order that start and end with empty hands take each handle once, if
    none is given twice. -/
theorem takesEachOnce (h : Postfix [] cs []) (hnodup : (cs.flatMap given).Nodup) :
    TakesEachOnce cs where
  nodup_given := hnodup
  taken_once := by
    intro before call behind hcs k hk
    subst hcs
    rw [List.flatMap_append, List.flatMap_cons] at hnodup
    have honce := List.nodup_iff_count.mp hnodup k
    have hgiven := List.count_pos_iff.mpr hk
    simp only [List.count_append] at honce
    -- The handle is in hand right behind its call and was not before.
    rcases h.exists_of_append with ⟨mid, hbefore, hrest⟩
    have hbefore := hbefore.count_add_count k
    cases hrest with
    | cons hbehind =>
        have hbehind := hbehind.count_add_count k
        simp only [List.count_append, List.count_reverse, List.count_nil] at hbefore hbehind
        refine ⟨fun c hc => ?_, by omega⟩
        have htaken : ((before ++ [call]).flatMap taken).count k = 0 := by
          rw [List.flatMap_append, List.flatMap_singleton, List.count_append]
          omega
        exact fun hkc => List.count_eq_zero.mp htaken (List.mem_flatMap.mpr ⟨c, hc, hkc⟩)

end Postfix

end SinkCall

/-- The calls so far have given the handles up to the next one, and `st` is the stack of
    those that were not taken. -/
structure Trace.Holds (t : Trace) (st : List Nat) : Prop where
  postfix_calls : SinkCall.Postfix [] t.calls.toList st
  given_calls : t.calls.toList.flatMap SinkCall.given = List.range t.nextHandle

namespace Trace.Holds

variable {t : Trace} {st : List Nat}

/-- A further call, which takes what is on top of the stack and gives nothing. -/
theorem emit {call : SinkCall} (h : t.Holds (call.taken.reverse ++ st))
    (hgiven : call.given = []) : ((Tracer.emit call).run t).2.Holds st := by
  have hcalls : ((Tracer.emit call).run t).2.calls.toList = t.calls.toList ++ [call] :=
    Array.toList_push
  constructor
  · have hsnoc := h.postfix_calls.snoc
    rwa [hgiven, List.nil_append, ← hcalls] at hsnoc
  · rw [hcalls, List.flatMap_append, List.flatMap_singleton, hgiven, List.append_nil,
      h.given_calls]
    rfl

/-- A further call, which takes what is on top of the stack and gives the next handle. -/
theorem give (call : Nat → SinkCall)
    (h : t.Holds ((call t.nextHandle).taken.reverse ++ st))
    (hgiven : (call t.nextHandle).given = [t.nextHandle]) :
    ((Tracer.give call).run t).2.Holds (((Tracer.give call).run t).1 :: st) := by
  have hcalls : ((Tracer.give call).run t).2.calls.toList =
      t.calls.toList ++ [call t.nextHandle] := Array.toList_push
  constructor
  · have hsnoc := h.postfix_calls.snoc
    rwa [hgiven, ← hcalls] at hsnoc
  · rw [hcalls, List.flatMap_append, List.flatMap_singleton, hgiven, h.given_calls]
    exact List.range_succ.symm

/-- Asking for an expression puts its handle on the stack. -/
theorem ask (h : t.Holds st) (e : Expression) :
    ((e.ask : Tracer Nat).run t).2.Holds (((e.ask : Tracer Nat).run t).1 :: st) := by
  -- The handles of the operands are on top of the stack when the call takes them.
  induction e generalizing t st with
  | const width value => exact h.give (.constant · width value) rfl
  | reg width r => exact h.give (.reg · width r) rfl
  | pop width => exact h.give (.pop · width) rfl
  | load width address ih => exact (ih h).give (.load · width _) rfl
  | binary op width left right ihl ihr => exact (ihr (ihl h)).give (.binary · op width _ _) rfl

/-- Asking for a statement leaves the stack as it was. -/
theorem ask_statement (h : t.Holds st) (s : Statement) :
    ((s.ask : Tracer Unit).run t).2.Holds st := by
  cases s with
  | nop => exact h.emit rfl
  | push width value => exact (h.ask value).emit rfl
  | setReg width r value => exact (h.ask value).emit rfl
  | store width address value => exact ((h.ask address).ask value).emit rfl
  | jump target => exact (h.ask target).emit rfl
  | ret => exact h.emit rfl

theorem forM_ask (h : t.Holds st) (ss : List Statement) :
    ((forM ss Statement.ask : Tracer Unit).run t).2.Holds st := by
  induction ss generalizing t with
  | nil => exact h
  | cons s ss ih => exact ih (h.ask_statement s)

end Trace.Holds

/-- Lifting takes each handle once. -/
theorem Revision.takesEachOnce_calls_liftAt (r : Revision) (address : UInt64)
    (window : List UInt8) :
    SinkCall.TakesEachOnce (Tracer.calls (r.liftAt address window)) := by
  have hstart : Trace.Holds {} [] := ⟨.nil [], rfl⟩
  have hend := hstart.forM_ask ((r.decode address window).toOption.elim [] r.code)
  rw [Tracer.calls, liftAt_eq_forM_ask]
  refine hend.postfix_calls.takesEachOnce ?_
  rw [hend.given_calls]
  exact List.nodup_range

end StackLift
