import StackLift.Proofs.Machine.Frame
import StackLift.Proofs.Machine.Run

/-!
# Machines That Run Alike

Two machines that differ in some registers at most, and what code makes of the
difference.

Call the registers in which the machines may differ stale. Code that computes with a
stale register may do something else on each machine, and then nothing is left to say.
Code that does not do so does the same on both, and every register it puts a value into
is stale no longer, since both machines put the same value there. So the stale registers
get fewer along a run, and whether code is safe to run can be read off its statements:
`ReadsFresh` goes through them and keeps the account.

The register that addresses the stack is named by no statement, although every push and
pop computes with it. It must not be stale to begin with, and then it never is.

## Main definitions

* `Statement.sources`: The registers that a statement computes with.
* `Statement.leavesStale`: The registers that are still stale behind a statement.
* `ReadsFresh`: No statement computes with a register that is stale by then.
* `Machine.AgreeBut`: Two machines differ in stale registers at most.

## Theorems

* `readsFresh_append`: Statements behind statements.
* `agreeBut_eval`, `agreeBut_execute`: One expression, and one statement.
* `agreeBut_run`: A run, as far as the statements are executed.
-/

namespace StackLift

namespace Statement

/-- The registers that the statement computes with, the stack pointer aside. -/
def sources : Statement → List Register
  | nop | ret => []
  | push _ value | setReg _ _ value => value.registers
  | store _ address value => address.registers ++ value.registers
  | jump target => target.registers

/-- The registers out of `stale` that the statement puts nothing into. -/
def leavesStale (stale : List Register) (s : Statement) : List Register :=
  stale.filter fun x => s.assigned? ≠ some x

theorem leavesStale_subset (stale : List Register) (s : Statement) : s.leavesStale stale ⊆ stale :=
  List.filter_sublist.subset

theorem leavesStale_of_assigned?_eq_none {s : Statement} (stale : List Register)
    (h : s.assigned? = none) : s.leavesStale stale = stale := by
  rw [leavesStale, List.filter_eq_self]
  intro x _
  simp only [h, ne_eq, reduceCtorEq, not_false_eq_true, decide_true]

end Statement

/-- No statement computes with a register that is stale by the time it is executed. -/
def ReadsFresh : List Register → List Statement → Prop
  | _, [] => True
  | stale, s :: ss => (∀ x ∈ s.sources, x ∉ stale) ∧ ReadsFresh (s.leavesStale stale) ss

theorem readsFresh_append {stale : List Register} {xs ys : List Statement} :
    ReadsFresh stale (xs ++ ys) ↔
      ReadsFresh stale xs ∧ ReadsFresh (xs.foldl Statement.leavesStale stale) ys := by
  induction xs generalizing stale with
  | nil => exact ⟨fun h => ⟨trivial, h⟩, And.right⟩
  | cons x xs ih => rw [List.cons_append, ReadsFresh, ReadsFresh, ih, List.foldl_cons, and_assoc]

namespace Machine

/-- The machines differ in stale registers at most. -/
structure AgreeBut (stale : List Register) (m n : Machine) : Prop where
  stackPointer : m.stackPointer = n.stackPointer
  memory : m.memory = n.memory
  get : ∀ x, x ∉ stale → m.get x = n.get x

variable {stale : List Register} {m n : Machine}

theorem AgreeBut.refl (stale : List Register) (m : Machine) : AgreeBut stale m m :=
  ⟨rfl, rfl, fun _ _ => rfl⟩

theorem AgreeBut.mono {fewer : List Register} (hsub : fewer ⊆ stale) (h : AgreeBut fewer m n) :
    AgreeBut stale m n :=
  ⟨h.stackPointer, h.memory, fun x hx => h.get x fun hc => hx (hsub hc)⟩

/-- A register that both machines put the same value into is not stale any more. -/
theorem agreeBut_set (h : AgreeBut stale m n) (r : Register) (v : UInt64) :
    AgreeBut (stale.filter (r ≠ ·)) (m.set r v) (n.set r v) := by
  refine ⟨h.stackPointer, h.memory, fun x hx => ?_⟩
  rw [get_set, get_set]
  by_cases hrx : r = x
  · rw [if_pos hrx, if_pos hrx]
  · rw [if_neg hrx, if_neg hrx]
    refine h.get x fun hc => hx ?_
    rw [List.mem_filter, decide_eq_true_eq]
    exact ⟨hc, hrx⟩

/-- What one of the machines puts into a stale register makes no difference. -/
theorem agreeBut_set_right (h : AgreeBut stale m n) {r : Register} (hr : r ∈ stale) (v : UInt64) :
    AgreeBut stale m (n.set r v) := by
  refine ⟨h.stackPointer, h.memory, fun x hx => ?_⟩
  have hrx : r ≠ x := fun hc => hx (hc ▸ hr)
  rw [h.get x hx, get_set_of_ne n v hrx]

theorem agreeBut_store (h : AgreeBut stale m n) (a width v : UInt64) :
    AgreeBut stale (m.store a width v) (n.store a width v) :=
  ⟨h.stackPointer, congrArg (·.store a width v) h.memory, h.get⟩

section FreshStackPointer

variable (h : AgreeBut stale m n) (hsp : m.stackPointer ∉ stale)
include h hsp

theorem agreeBut_push (width v : UInt64) : AgreeBut stale (m.push width v) (n.push width v) := by
  have htop := h.get _ hsp
  rw [push, push, ← h.stackPointer, ← htop]
  exact agreeBut_store ((agreeBut_set h _ _).mono List.filter_sublist.subset) _ _ _

theorem agreeBut_pop (width : UInt64) :
    (m.pop width).1 = (n.pop width).1 ∧ AgreeBut stale (m.pop width).2 (n.pop width).2 := by
  have htop := h.get _ hsp
  rw [pop, pop, ← h.stackPointer, ← htop, h.memory]
  exact ⟨rfl, (agreeBut_set h _ _).mono List.filter_sublist.subset⟩

/-- An expression without a stale register has the same value on both machines. -/
theorem agreeBut_eval {e : Expression} (he : ∀ x ∈ e.registers, x ∉ stale) :
    (eval e m).1 = (eval e n).1 ∧ AgreeBut stale (eval e m).2 (eval e n).2 := by
  induction e generalizing m n with
  | const width value => exact ⟨rfl, h⟩
  | reg width r =>
      have hr := h.get r (he r List.mem_cons_self)
      exact ⟨congrArg (· &&& Word.mask width) hr, h⟩
  | pop width => exact agreeBut_pop h hsp width
  | load width address ih =>
      rcases ih h hsp he with ⟨ha, hn⟩
      simp only [eval, ha, hn.memory]
      exact ⟨trivial, hn⟩
  | binary op width left right ihl ihr =>
      rw [Expression.registers, List.forall_mem_append] at he
      rcases ihl h hsp he.1 with ⟨ha, hn⟩
      -- The right operand finds the stack where the left one has left it.
      have hsp' : (eval left m).2.stackPointer ∉ stale := by
        rwa [(keeps_eval .vsp left m).stackPointer]
      rcases ihr hn hsp' he.2 with ⟨hb, hk⟩
      simp only [eval, ha, hb]
      exact ⟨trivial, hk⟩

/-- A statement that computes with no stale register does the same on both machines. -/
theorem agreeBut_execute {s : Statement} (hs : ∀ x ∈ s.sources, x ∉ stale) :
    (execute s m).1 = (execute s n).1 ∧
      AgreeBut (s.leavesStale stale) (execute s m).2 (execute s n).2 := by
  cases s with
  | nop | ret =>
      rw [Statement.leavesStale_of_assigned?_eq_none stale rfl]
      exact ⟨rfl, h⟩
  | push width value =>
      rcases agreeBut_eval h hsp hs with ⟨hv, hn⟩
      have hsp' : (eval value m).2.stackPointer ∉ stale := by
        rwa [(keeps_eval .vsp value m).stackPointer]
      rw [Statement.leavesStale_of_assigned?_eq_none stale rfl]
      simp only [execute, hv]
      exact ⟨trivial, agreeBut_push hn hsp' width _⟩
  | setReg width r value =>
      rcases agreeBut_eval h hsp hs with ⟨hv, hn⟩
      have hleaves : (Statement.setReg width r value).leavesStale stale = stale.filter (r ≠ ·) := by
        simp only [Statement.leavesStale, Statement.assigned?, ne_eq, Option.some.injEq]
      rw [hleaves]
      simp only [execute, hv]
      exact ⟨trivial, agreeBut_set hn r _⟩
  | store width address value =>
      rw [Statement.sources, List.forall_mem_append] at hs
      rcases agreeBut_eval h hsp hs.1 with ⟨ha, hn⟩
      have hsp' : (eval address m).2.stackPointer ∉ stale := by
        rwa [(keeps_eval .vsp address m).stackPointer]
      rcases agreeBut_eval hn hsp' hs.2 with ⟨hv, hk⟩
      rw [Statement.leavesStale_of_assigned?_eq_none stale rfl]
      simp only [execute, ha, hv]
      exact ⟨trivial, agreeBut_store hk _ width _⟩
  | jump target =>
      rcases agreeBut_eval h hsp hs with ⟨ha, hn⟩
      rw [Statement.leavesStale_of_assigned?_eq_none stale rfl]
      exact ⟨congrArg Control.jump ha, hn⟩

/-- Statements that compute with no register which is stale by then run alike on both
    machines, and what they have put a value into is not stale any more. -/
theorem agreeBut_run {ss : List Statement} (hss : ReadsFresh stale ss) :
    (run ss m).1 = (run ss n).1 ∧ executed ss m = executed ss n ∧
      AgreeBut ((executed ss m).foldl Statement.leavesStale stale) (run ss m).2 (run ss n).2 := by
  -- Along the statements, with fewer and fewer registers that are stale.
  induction ss generalizing stale m n with
  | nil => exact ⟨rfl, rfl, h⟩
  | cons s ss ih =>
      rcases hss with ⟨hs, hss⟩
      have hexecute := agreeBut_execute h hsp hs
      have hstack := stackPointer_execute s m
      rw [run, run, executed, executed]
      rcases hm : execute s m with ⟨c, m'⟩
      rcases hn : execute s n with ⟨c', n'⟩
      rw [hm, hn] at hexecute
      rw [hm] at hstack
      rcases hexecute with ⟨rfl, hagree⟩
      cases c with
      | proceed =>
          have hsp' : m'.stackPointer ∉ s.leavesStale stale := by
            rw [hstack]
            exact fun hc => hsp (s.leavesStale_subset stale hc)
          rcases ih hagree hsp' hss with ⟨hc, hex, hrest⟩
          exact ⟨hc, congrArg (s :: ·) hex, hrest⟩
      | jump a => exact ⟨rfl, rfl, hagree⟩
      | ret => exact ⟨rfl, rfl, hagree⟩

end FreshStackPointer

end Machine

end StackLift
