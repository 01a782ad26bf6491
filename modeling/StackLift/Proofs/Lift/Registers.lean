import Mathlib.Logic.Relation
import StackLift.Proofs.Execution.CodeMap
import StackLift.Proofs.Machine.Frame

/-!
# Registers in Lifted Code

Lifted code has no register in it that the definition does not declare, and puts values
into the operand holders only.

The first is what the rules for opcodes are there for. Whether a category is lifted
through the operand holders, through an argument register or through the base of the
register file, the rules ask for the registers that its code is going to name; the
stack pointer is named by no code. The second can be read off the code. Together with
the frame of a run it says which registers lifted code leaves alone, however many blocks
are run: all but the holders and the register that addresses the stack. The latter is
chosen along with the machine and may well be one that the code reads its arguments
from; then it changes like any stack pointer.

## Main definitions

* `Revision.RunsBlock`: Machines before and after lifted code of a block.

## Theorems

* `mem_registers_of_mem_code`: The registers in an instruction's code are declared.
* `assigned?_of_mem_code`: An instruction's code puts values into the holders only.
* `exists_mem_code_of_liftBlock`: The code of a block is that of instructions.
* `keeps_of_runsBlock`: What runs of lifted code leave alone.
* `reflTransGen_run`: Executing the blocks of a scan is such a run.
* `registers_of_liftAt`: All of this about a definition that is accepted.
-/

namespace StackLift

namespace Revision

variable {d : Definition} {r : Revision} {address : UInt64} {window : List UInt8}
  {i : Instruction} {s : Statement} {x : Register}

/-- A machine, and one that lifted code of a block has left at some point of its run. -/
def RunsBlock (r : Revision) (m n : Machine) : Prop :=
  ∃ image b c ss, r.liftBlock image b = .ok c ∧ ss <+: c.statements ∧
    (Machine.run ss m).2 = n

theorem holders_cases (r : Revision) (op : Operator) :
    r.holders op = (.vlhs, .vrhs) ∨ r.holders op = (.vrhs, .vlhs) := by
  unfold holders
  cases r.popOrder op with
  | leftFirst => exact Or.inl rfl
  | rightFirst => exact Or.inr rfl

theorem baseRegister_argument_mem (h : r.registers.argumentBase ≠ .absent) (operand : UInt64) :
    r.baseRegister .argument operand ∈ r.registers := by
  unfold baseRegister
  unfold RegisterFile.argumentBase at h ⊢
  by_cases hone : .varg ∈ r.registers
  · rw [if_pos hone]
    exact hone
  · by_cases hsplit : .varg1 ∈ r.registers ∧ .varg2 ∈ r.registers
    · rw [if_neg hone, if_pos hsplit]
      by_cases hoperand : operand = 0
      · rw [if_pos hoperand]
        exact hsplit.1
      · rw [if_neg hoperand]
        exact hsplit.2
    · rw [if_neg hone, if_neg hsplit] at h
      contradiction

/-- The registers in the code of an instruction are the operand holders, where the
    category needs them, and the register that an address is computed from. -/
theorem cases_of_mem_registers (hs : s ∈ r.code i) (hx : x ∈ s.registers) :
    (i.category.needsScratch = true ∧ (x = .vlhs ∨ x = .vrhs)) ∨
      ∃ base, i.category = .registerRelativeAddress base ∧
        x = r.baseRegister base (i.operand?.getD 0) := by
  unfold code at hs
  -- Three categories have code with a register in it, the others are ruled out.
  cases hcat : i.category with
  | registerRelativeAddress base =>
      simp only [hcat, List.mem_singleton] at hs
      rw [hs] at hx
      exact Or.inr ⟨base, rfl, List.mem_singleton.mp hx⟩
  | stackBinaryOp op =>
      by_cases hop : op.isOrderSensitive = true
      · refine Or.inl ⟨hop, ?_⟩
        simp only [hcat, hop, if_true, List.mem_cons, List.not_mem_nil, or_false] at hs
        rcases hs with rfl | rfl | rfl
        · rw [List.mem_singleton.mp hx]
          rcases r.holders_cases op with hh | hh <;> simp only [hh, true_or, or_true]
        · rw [List.mem_singleton.mp hx]
          rcases r.holders_cases op with hh | hh <;> simp only [hh, true_or, or_true]
        · exact List.mem_pair.mp hx
      · simp only [hcat, hop, Bool.false_eq_true, if_false, List.mem_singleton] at hs
        rw [hs] at hx
        contradiction
  | memoryWrite =>
      refine Or.inl ⟨rfl, ?_⟩
      simp only [hcat, List.mem_cons, List.not_mem_nil, or_false] at hs
      rcases hs with rfl | rfl | rfl
      · exact Or.inl (List.mem_singleton.mp hx)
      · exact Or.inr (List.mem_singleton.mp hx)
      · exact List.mem_pair.mp hx
  | unconditionalBranch =>
      simp only [hcat] at hs
      split at hs <;> rw [List.mem_singleton.mp hs] at hx <;> contradiction
  | _ =>
      simp only [hcat, List.mem_singleton] at hs
      rw [hs] at hx
      contradiction

/-- The code of an instruction puts values into the operand holders only. -/
theorem assigned?_of_mem_code (hs : s ∈ r.code i) (hx : s.assigned? = some x) :
    x = .vlhs ∨ x = .vrhs := by
  rcases cases_of_mem_registers hs (Statement.mem_registers_of_assigned? hx) with h | ⟨base, hcat, _⟩
  · exact h.2
  · -- An address is pushed and not put into a register.
    rw [code, hcat] at hs
    rw [List.mem_singleton.mp hs] at hx
    contradiction

/-- Every statement in the code of a block comes from an instruction that was decoded. -/
theorem exists_mem_code_of_liftBlock {image : Image} {b : Block} {c : Recording}
    (h : r.liftBlock image b = .ok c) (hs : s ∈ c.statements) :
    ∃ a i, r.decodeAt image a = .ok i ∧ s ∈ r.code i := by
  rcases liftBlock_eq_ok_iff.mp h with ⟨is, his, rfl⟩
  rw [statements_recording, List.mem_flatMap] at hs
  rcases hs with ⟨i, hi, hs⟩
  rcases (mem_iff_of_mapM_eq_ok his i).mp hi with ⟨a, _, ha⟩
  exact ⟨a, i, ha, hs⟩

/-- Lifted code of a block keeps every register but the operand holders. -/
theorem keeps_of_runsBlock {m n : Machine} (h : r.RunsBlock m n) (hlhs : x ≠ .vlhs)
    (hrhs : x ≠ .vrhs) : Machine.Keeps x m n := by
  rcases h with ⟨image, b, c, ss, hc, hsub, rfl⟩
  refine Machine.keeps_run (fun s hs hx => ?_) m
  rcases exists_mem_code_of_liftBlock hc (hsub.subset hs) with ⟨_, _, _, hs⟩
  exact (assigned?_of_mem_code hs hx).elim hlhs hrhs

/-- Executing the blocks of a scan is running lifted code of blocks. -/
theorem reflTransGen_run (r : Revision) (image : Image) (entries : List UInt64) (limit : Nat)
    (t : Execution.State) :
    let code := Execution.codeMap (r.liftListings image (r.scan image entries))
    Relation.ReflTransGen r.RunsBlock t.machine (Execution.run (code[·]?) limit t).1.machine := by
  intro code
  -- Whatever a block's code does to the flow of control, the machine is the one it leaves.
  induction limit generalizing t with
  | zero => exact .refl
  | succ limit ih =>
      rw [Execution.run, Execution.advance]
      by_cases ht : t.position ∈ r.scan image entries
      · have hcode : code[t.position]? = some (r.liftedBlock image t.position) :=
          getElem?_codeMap_of_mem ht
        have hstep : r.RunsBlock t.machine
            (Machine.run (r.liftedBlock image t.position).code.statements t.machine).2 :=
          ⟨image, _, _, _, liftBlock_listing r image t.position, List.prefix_refl _, rfl⟩
        simp only [hcode]
        rcases hrun : Machine.run (r.liftedBlock image t.position).code.statements t.machine
          with ⟨c, n⟩
        rw [hrun] at hstep
        cases c with
        | proceed => exact .head hstep (ih ⟨(r.liftedBlock image t.position).block.finish, n⟩)
        | jump target => exact .head hstep (ih ⟨target, n⟩)
        | ret => exact .single hstep
      · have hcode : code[t.position]? = none := getElem?_codeMap_of_not_mem ht
        simp only [hcode]
        exact .refl

section Accepted

variable (hr : ofDefinition d = .ok r)
include hr

/-- The registers in the code of an instruction are declared. -/
theorem mem_registers_of_mem_code (hi : r.decode address window = .ok i) (hs : s ∈ r.code i)
    (hx : x ∈ s.registers) : x ∈ r.registers := by
  rcases check_of_decode hr hi with ⟨e, _, he, hcheck⟩
  rcases OpcodeEntry.check_eq_ok_iff.mp hcheck with ⟨_, _, hholders, hargument, hfile⟩
  rw [he, ← registers_eq_definition hr] at hholders hargument hfile
  -- What the code names is what the rules have asked for.
  rcases cases_of_mem_registers hs hx with ⟨hcat, hx⟩ | ⟨base, hcat, rfl⟩
  · have hscratch : .vlhs ∈ r.registers ∧ .vrhs ∈ r.registers := of_decide_eq_true (hholders hcat)
    rcases hx with rfl | rfl
    · exact hscratch.1
    · exact hscratch.2
  · cases base with
    | registerFile => exact hfile hcat
    | argument => exact baseRegister_argument_mem (hargument hcat) _

/-- The registers that occur in lifted code are declared, and it puts values into the
    operand holders only. However many blocks are run, the argument registers and the
    base of the register file hold what they held, save for the one, if any, that
    addresses the stack of the machine. -/
theorem registers_of_liftAt :
    (∀ address window, ∀ s ∈ ((r.liftAt address window : Recorder _).run {}).2.statements,
      (∀ x ∈ s.registers, x ∈ r.registers) ∧
        ∀ x, s.assigned? = some x → x = .vlhs ∨ x = .vrhs) ∧
    ∀ m n, Relation.ReflTransGen r.RunsBlock m n →
      ∀ x, x = .varg ∨ x = .varg1 ∨ x = .varg2 ∨ x = .vreg →
        x ≠ m.stackPointer → n.get x = m.get x := by
  constructor
  · intro address window s hs
    unfold liftAt at hs
    cases hi : r.decode address window with
    | error e =>
        rw [hi] at hs
        contradiction
    | ok i =>
        rw [hi] at hs
        have hcode : s ∈ r.code i := by
          rw [← statements_lift]
          exact hs
        exact ⟨fun x hx => mem_registers_of_mem_code hr hi hcode hx,
          fun x hx => assigned?_of_mem_code hcode hx⟩
  · intro m n h x hx
    -- Block by block; the stack stays with the register that addresses it at first.
    have hkeeps : Machine.Keeps x m n := by
      induction h with
      | refl => exact .refl x m
      | tail _ hstep ih =>
          refine ih.trans (keeps_of_runsBlock hstep ?_ ?_) <;> rintro rfl <;> contradiction
    exact hkeeps.get

end Accepted

/-- The registers of the built-in revision with split arguments. -/
theorem registers_of_liftAt_split : ∃ r,
    ofDefinition BuiltinRevision.tigress3.definition = .ok r ∧
    (∀ address window, ∀ s ∈ ((r.liftAt address window : Recorder _).run {}).2.statements,
      (∀ x ∈ s.registers, x ∈ r.registers) ∧
        ∀ x, s.assigned? = some x → x = .vlhs ∨ x = .vrhs) ∧
    ∀ m n, Relation.ReflTransGen r.RunsBlock m n →
      ∀ x, x = .varg ∨ x = .varg1 ∨ x = .varg2 ∨ x = .vreg →
        x ≠ m.stackPointer → n.get x = m.get x := by
  rcases BuiltinRevision.exists_revision .tigress3 with ⟨r, hr⟩
  exact ⟨r, hr, registers_of_liftAt hr⟩

/-- A push moves the register that addresses the stack, an argument register here. -/
theorem runsBlock_push_argument : ∃ r n,
    ofDefinition BuiltinRevision.tigress3.definition = .ok r ∧
    Relation.ReflTransGen r.RunsBlock (Machine.start .varg 0x1000) n ∧
    n.get .varg ≠ (Machine.start .varg 0x1000).get .varg := by
  rcases BuiltinRevision.exists_revision .tigress3 with ⟨r, hr⟩
  have hmax : r.maxLength = 9 := by
    have h : (ofDefinition BuiltinRevision.tigress3.definition).toOption.map maxLength = some 9 := by
      decide
    rw [hr] at h
    exact Option.some.inj h
  have hlookup : r.opcodes.lookup? 0x60 = some ⟨"loadq", .qword, .stackPush⟩ := by
    rw [lookup?_eq_entryOf? hr]
    decide
  have himage : ∃ image : Image, image.window 0 9 = [0x60, 5, 0, 0, 0, 0, 0, 0, 0] :=
    ⟨⟨0, #[0x60, 5, 0, 0, 0, 0, 0, 0, 0], by decide⟩, by decide⟩
  rcases himage with ⟨image, hwindow⟩
  have hi : r.decodeAt image 0 =
      .ok ⟨0, ⟨"loadq", .qword, .stackPush⟩, 0x60, [5, 0, 0, 0, 0, 0, 0, 0]⟩ := by
    rw [← hmax] at hwindow
    exact decode_eq_ok_iff.mpr ⟨0x60, _, _, hwindow, hlookup, by decide, rfl⟩
  have haddresses : (({ start := 0, length := 9 } : Block).mark 0).addresses = [0] := by decide
  have hblock : ∃ c, r.liftBlock image (({ start := 0, length := 9 } : Block).mark 0) = .ok c ∧
      c.statements = [.push 8 (.const 8 5)] := by
    rw [liftBlock, haddresses, List.foldlM_cons, record_eq, hi]
    exact ⟨_, rfl, rfl⟩
  rcases hblock with ⟨c, hc, hcode⟩
  refine ⟨r, _, hr, .single ⟨image, _, c, c.statements, hc, List.prefix_refl _, rfl⟩, ?_⟩
  rw [hcode]
  decide

end Revision

end StackLift
