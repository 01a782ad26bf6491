import Mathlib.Algebra.Ring.Int.Defs
import Mathlib.Data.UInt
import StackLift.Proofs.Machine.Frame
import StackLift.Proofs.Machine.Run

/-!
# Stack Depth

How far the stack pointer moves, and how much of that can be read off the code.

A value that is taken off the stack moves the stack pointer up by the width under
which it is taken, one that is put onto it moves the stack pointer down. Nothing else
moves it, unless a statement puts a value right into it. A store changes memory only,
wherever its address comes from, even if that is the stack. So where the stack pointer
ends up is settled by the code, and no value has to be known.

A stack effect counts values and leaves their widths out. It tells how far the stack
pointer moves if all of them are a slot wide, which is eight bytes. The effect may be
negative and the stack pointer may wrap around, so `Machine.Grows` counts modulo 2^64
and adds the slots to what the stack pointer holds afterwards. Stated like this, the
effects of steps one after the other add up.

A run may end before its code does, and then the statements behind do not count. Where it
ends can be read off the code as well.

## Main definitions

* `Expression.popWidths`, `Statement.stackWidths`: The widths of the values that code
  moves.
* `Statement.MovesSlots`: All of them are a slot wide.
* `Machine.Grows`: The stack has grown by so many slots.

## Theorems

* `get_stackPointer_eval`: Computing an expression moves the stack pointer up by the
  widths of its pops.
* `grows_execute`: A statement moves the stack pointer by its stack effect.
* `grows_run`: A run moves it by the stack effects of what is executed.
* `Grows.toNat_get`: The stack pointer as a number.
* `stackPointer_eval_run`: Where the stack pointer ends up, as it can be read off any code.
-/

namespace StackLift

/-- The widths of the values that computing the expression takes off the stack. -/
def Expression.popWidths : Expression → List UInt64
  | .const _ _ | .reg _ _ => []
  | .pop width => [width]
  | .load _ address => address.popWidths
  | .binary _ _ left right => left.popWidths ++ right.popWidths

/-- The widths of the values that the statement takes off the stack or puts there. -/
def Statement.stackWidths : Statement → List UInt64
  | .nop | .ret => []
  | .push width value => width :: value.popWidths
  | .setReg _ _ value => value.popWidths
  | .store _ address value => address.popWidths ++ value.popWidths
  | .jump target => target.popWidths

/-- The statement moves whole slots to and from the stack and puts nothing into the
    register that addresses it. -/
structure Statement.MovesSlots (sp : Register) (s : Statement) : Prop where
  slots : ∀ w ∈ s.stackWidths, w = 8
  assigned : s.assigned? ≠ some sp

theorem Expression.length_popWidths (e : Expression) : e.popWidths.length = e.pops := by
  induction e with
  | const width value => rfl
  | reg width r => rfl
  | pop width => rfl
  | load width address ih => exact ih
  | binary op width left right ihl ihr => rw [popWidths, List.length_append, ihl, ihr, pops]

/-- Values of a slot each are eight times as many bytes as there are values. -/
theorem sum_add_slots {ws : List UInt64} (h : ∀ w ∈ ws, w = 8) :
    ws.sum + 8 * UInt64.ofInt (-ws.length) = 0 := by
  induction ws with
  | nil => rfl
  | cons w ws ih =>
      rw [List.forall_mem_cons] at h
      have htail := ih h.2
      have hlength : (-((w :: ws).length : Int)) = -(ws.length : Int) + -1 := by
        rw [List.length_cons]
        omega
      rw [hlength, List.sum_cons, h.1, UInt64.ofInt_add, UInt64.ofInt_neg_one]
      grind

namespace Machine

variable {m n o : Machine} {j k : Int}

theorem get_stackPointer_eval (e : Expression) (m : Machine) :
    (eval e m).2.get m.stackPointer = m.get m.stackPointer + e.popWidths.sum := by
  induction e generalizing m with
  | const width value => exact (UInt64.add_zero _).symm
  | reg width r => exact (UInt64.add_zero _).symm
  | pop width =>
      rw [eval, get_pop, Expression.popWidths, List.sum_singleton]
  | load width address ih => exact ih m
  | binary op width left right ihl ihr =>
      -- The right operand is popped off the stack that the left one has left.
      have hright := ihr (eval left m).2
      rw [(keeps_eval .vsp left m).stackPointer, ihl m, UInt64.add_assoc] at hright
      rw [Expression.popWidths, List.sum_append]
      exact hright

/-- The stack is addressed by the same register as before and has grown by `k` slots, so
    that this register has moved down by as many, or up if `k` is negative. -/
structure Grows (k : Int) (m n : Machine) : Prop where
  stackPointer : n.stackPointer = m.stackPointer
  get : n.get m.stackPointer + 8 * UInt64.ofInt k = m.get m.stackPointer

theorem Grows.refl (m : Machine) : Grows 0 m m := ⟨rfl, UInt64.add_zero _⟩

theorem Grows.trans (hmn : Grows j m n) (hno : Grows k n o) : Grows (j + k) m o := by
  refine ⟨hno.stackPointer.trans hmn.stackPointer, ?_⟩
  have hn := hno.get
  rw [hmn.stackPointer] at hn
  rw [← hmn.get, ← hn, UInt64.ofInt_add, UInt64.mul_add, UInt64.add_assoc,
    UInt64.add_comm (8 * UInt64.ofInt k)]

/-- The stack pointer as a number, which wraps around at both ends. -/
theorem Grows.toNat_get (h : Grows k m n) :
    ((n.get m.stackPointer).toNat : Int) = ((m.get m.stackPointer).toNat - 8 * k) % 2 ^ 64 := by
  have hn := (n.get m.stackPointer).toNat_lt
  have hk : ((UInt64.ofInt k).toNat : Int) = k % 2 ^ 64 := by
    rw [UInt64.ofInt, UInt64.toNat_ofNat']
    omega
  simp only [← h.get, UInt64.toNat_add, UInt64.toNat_mul, UInt64.reduceToNat]
  omega

theorem grows_set {x : Register} (m : Machine) (v : UInt64) (hx : x ≠ m.stackPointer) :
    Grows 0 m (m.set x v) := ⟨rfl, (UInt64.add_zero _).trans (get_set_of_ne m v hx)⟩

theorem grows_push (m : Machine) (v : UInt64) : Grows 1 m (m.push 8 v) := by
  refine ⟨rfl, ?_⟩
  rw [get_push]
  exact UInt64.sub_add_cancel _ 8

theorem grows_eval {e : Expression} (he : ∀ w ∈ e.popWidths, w = 8) (m : Machine) :
    Grows (-e.pops) m (eval e m).2 := by
  refine ⟨(keeps_eval .vsp e m).stackPointer, ?_⟩
  have hslots := sum_add_slots he
  rw [Expression.length_popWidths] at hslots
  rw [get_stackPointer_eval, UInt64.add_assoc, hslots, UInt64.add_zero]

/-- A statement that moves whole slots moves the stack pointer by its stack effect. -/
theorem grows_execute {s : Statement} (h : s.MovesSlots m.stackPointer) :
    Grows s.stackEffect m (execute s m).2 := by
  have hslots := h.slots
  cases s with
  | nop => exact .refl m
  | push width value =>
      rw [Statement.stackWidths, List.forall_mem_cons] at hslots
      rcases hslots with ⟨rfl, hvalue⟩
      have heffect : (Statement.push 8 value).stackEffect = -value.pops + 1 := by
        rw [Statement.stackEffect]
        omega
      rw [heffect]
      exact (grows_eval hvalue m).trans (grows_push _ _)
  | setReg width x value =>
      have hx : x ≠ (eval value m).2.stackPointer := by
        rw [(keeps_eval x value m).stackPointer]
        exact fun hc => h.assigned (congrArg some hc)
      have hset := (grows_eval hslots m).trans
        (grows_set _ ((eval value m).1 &&& Word.mask width) hx)
      rwa [Int.add_zero] at hset
  | store width address value =>
      rw [Statement.stackWidths, List.forall_mem_append] at hslots
      have heffect : (Statement.store width address value).stackEffect =
          -address.pops + -value.pops := by
        rw [Statement.stackEffect]
        omega
      have hstore := (grows_eval hslots.1 m).trans (grows_eval hslots.2 _)
      -- Writing memory leaves the registers alone.
      rw [heffect]
      exact ⟨hstore.stackPointer, hstore.get⟩
  | jump target => exact grows_eval hslots m
  | ret => exact .refl m

/-- Statements that move whole slots move the stack pointer by the stack effects of those
    that are executed. -/
theorem grows_run {ss : List Statement} (h : ∀ s ∈ ss, s.MovesSlots m.stackPointer) :
    Grows ((executed ss m).map Statement.stackEffect).sum m (run ss m).2 := by
  induction ss generalizing m with
  | nil => exact .refl m
  | cons s ss ih =>
      rw [List.forall_mem_cons] at h
      have hs := grows_execute h.1
      rw [run, executed]
      rcases hn : execute s m with ⟨c, n⟩
      rw [hn] at hs
      cases c with
      | proceed =>
          -- The rest moves slots on the same stack.
          have hrest := ih (m := n) (by rw [hs.stackPointer]; exact h.2)
          rw [List.map_cons, List.sum_cons]
          exact hs.trans hrest
      | jump a =>
          rw [List.map_singleton, List.sum_singleton]
          exact hs
      | ret =>
          rw [List.map_singleton, List.sum_singleton]
          exact hs

theorem toNat_sum (ws : List UInt64) : ws.sum.toNat = (ws.map UInt64.toNat).sum % 2 ^ 64 := by
  induction ws with
  | nil => rfl
  | cons w ws ih =>
      rw [List.sum_cons, UInt64.toNat_add, ih, Nat.add_mod_mod, List.map_cons, List.sum_cons]

/-- Computing an expression leaves memory and all registers alone but the one that addresses
    the stack, which moves up by the widths of the pops, so by eight bytes a pop if that is
    how wide they are. And statements that move whole slots move it by the stack effects of
    those that a run gets to, which are all up to the first that passes control on. -/
theorem stackPointer_eval_run (m : Machine) :
    (∀ e : Expression,
      let n := (eval e m).2
      n.memory = m.memory ∧ n.stackPointer = m.stackPointer ∧
      (∀ x, x ≠ m.stackPointer → n.get x = m.get x) ∧
      (n.get m.stackPointer).toNat =
        ((m.get m.stackPointer).toNat + (e.popWidths.map UInt64.toNat).sum) % 2 ^ 64 ∧
      ((∀ w ∈ e.popWidths, w = 8) →
        (n.get m.stackPointer).toNat = ((m.get m.stackPointer).toNat + 8 * e.pops) % 2 ^ 64)) ∧
    ∀ ss : List Statement, (∀ s ∈ ss, s.MovesSlots m.stackPointer) →
      let n := (run ss m).2
      let done := ss.take (ss.findIdx Statement.passesOn + 1)
      executed ss m = done ∧ n.stackPointer = m.stackPointer ∧
      ((n.get m.stackPointer).toNat : Int) =
        ((m.get m.stackPointer).toNat - 8 * (done.map Statement.stackEffect).sum) % 2 ^ 64 := by
  refine ⟨fun e => ?_, fun ss hss => ?_⟩
  · have hpointer : ((eval e m).2.get m.stackPointer).toNat =
        ((m.get m.stackPointer).toNat + (e.popWidths.map UInt64.toNat).sum) % 2 ^ 64 := by
      rw [get_stackPointer_eval, UInt64.toNat_add, toNat_sum, Nat.add_mod_mod]
    refine ⟨memory_eval e m, (keeps_eval .vsp e m).stackPointer,
      fun x hx => (keeps_eval x e m).get hx, hpointer, fun he => ?_⟩
    -- Pops of a slot each are eight times as many bytes as there are pops.
    have hbytes : (e.popWidths.map UInt64.toNat).sum = 8 * e.pops := by
      rw [List.eq_replicate_of_mem he, Expression.length_popWidths, List.map_replicate,
        List.sum_replicate_nat, Nat.mul_comm]
      rfl
    rw [hpointer, hbytes]
  · have hgrows := grows_run hss
    rw [executed_eq_take] at hgrows
    exact ⟨executed_eq_take ss m, hgrows.stackPointer, hgrows.toNat_get⟩

/-- A difference with a load in it, and a run that ends at a jump, on a stack that lies across
    the end of the address space. -/
theorem stackPointer_eval_run_wrapped :
    let m := start .vsp 0xfffffffffffffff8
    let e : Expression := .binary .sub 8 (.load 4 (.pop 8)) (.pop 8)
    let ss : List Statement := [.push 8 e, .jump (.pop 8), .push 8 (.const 8 1)]
    (∀ w ∈ e.popWidths, w = 8) ∧ ((eval e m).2.get .vsp).toNat = 8 ∧
    (∀ s ∈ ss, s.MovesSlots .vsp) ∧ ((run ss m).2.get .vsp).toNat = 8 := by
  intro m e ss
  have he : ∀ w ∈ e.popWidths, w = 8 := by simp [e, Expression.popWidths]
  have hss : ∀ s ∈ ss, s.MovesSlots .vsp := by
    intro s hs
    simp only [ss, List.mem_cons, List.not_mem_nil, or_false] at hs
    rcases hs with rfl | rfl | rfl
    · exact ⟨List.forall_mem_cons.mpr ⟨rfl, he⟩, by decide⟩
    · exact ⟨List.forall_mem_singleton.mpr rfl, by decide⟩
    · exact ⟨List.forall_mem_singleton.mpr rfl, by decide⟩
  refine ⟨he, (((stackPointer_eval_run m).1 e).2.2.2.2 he).trans (by decide), hss, ?_⟩
  exact Int.ofNat_inj.mp (((stackPointer_eval_run m).2 ss hss).2.2.trans (by decide))

end Machine

end StackLift
