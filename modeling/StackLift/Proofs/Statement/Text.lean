import StackLift.Machine.Basic
import StackLift.Proofs.Instruction.Decode
import StackLift.Proofs.Lift.Code
import StackLift.Proofs.Text
import StackLift.Statement.Text

/-!
# Code Read off Its Text

The text of lifted code says what the code is, up to the widths of its constants.

Text does not show everything. Of the widths, only those of stack and memory accesses stand in
it, and of these only the common ones have a letter. Where all widths but those of constants
are that of a register, nothing is lost by that. The width of a constant makes no difference
either as long as the constant fits, because all that a width does to a constant is to cut it.

What has to be shown is that the text cannot be taken apart in two ways. An expression has no
end of its own: the name of a register may go on to be the name of another, and the digits of a
number may go on with further digits. So the statement is about an expression with something
behind it that goes on with no letter and no digit, and the induction is on the expression for
whatever stands behind. The first character tells which form the expression has, and then each
part ends where its own end is found.

## Main definitions

* `Expression.Uniform`, `Statement.Uniform`: All widths are that of a register, constants
  apart.
* `Expression.widened`, `Statement.widened`: The same code, with constants of full width.

## Theorems

* `run_widened`: How wide the constants are makes no difference.
* `Expression.text_append_inj`: An expression and what stands behind it.
* `Statement.text_inj`: A statement.
* `uniform_of_mem_code`: The code of an instruction is of uniform width.
* `text_faithful`: Code with the same text is the same and does the same.
-/

namespace StackLift

/-- All widths are that of a register, but for constants, and these fit their width. -/
def Expression.Uniform : Expression → Prop
  | const width value => value.toNat < 2 ^ (8 * width.toNat)
  | reg width _ => width = 8
  | pop width => width = 8
  | load width address => width = 8 ∧ address.Uniform
  | binary _ width left right => width = 8 ∧ left.Uniform ∧ right.Uniform

/-- The expression with its constants as wide as a register. -/
def Expression.widened : Expression → Expression
  | const _ value => const 8 value
  | reg width r => reg width r
  | pop width => pop width
  | load width address => load width address.widened
  | binary op width left right => binary op width left.widened right.widened

/-- All widths are that of a register, but for constants, and these fit their width. -/
def Statement.Uniform : Statement → Prop
  | nop | ret => True
  | push width value => width = 8 ∧ value.Uniform
  | setReg width _ value => width = 8 ∧ value.Uniform
  | store width address value => width = 8 ∧ address.Uniform ∧ value.Uniform
  | jump target => target.Uniform

instance Expression.decidableUniform : (e : Expression) → Decidable e.Uniform
  | const width value => inferInstanceAs (Decidable (value.toNat < 2 ^ (8 * width.toNat)))
  | reg width _ => inferInstanceAs (Decidable (width = 8))
  | pop width => inferInstanceAs (Decidable (width = 8))
  | load width address =>
    have := address.decidableUniform
    inferInstanceAs (Decidable (width = 8 ∧ address.Uniform))
  | binary _ width left right =>
    have := left.decidableUniform
    have := right.decidableUniform
    inferInstanceAs (Decidable (width = 8 ∧ left.Uniform ∧ right.Uniform))

instance Statement.decidableUniform : (s : Statement) → Decidable s.Uniform
  | nop | ret => inferInstanceAs (Decidable True)
  | push width value | setReg width _ value =>
    inferInstanceAs (Decidable (width = 8 ∧ value.Uniform))
  | store width address value =>
    inferInstanceAs (Decidable (width = 8 ∧ address.Uniform ∧ value.Uniform))
  | jump target => inferInstanceAs (Decidable target.Uniform)

/-- The statement with its constants as wide as a register. -/
def Statement.widened : Statement → Statement
  | nop => nop
  | push width value => push width value.widened
  | setReg width r value => setReg width r value.widened
  | store width address value => store width address.widened value.widened
  | jump target => jump target.widened
  | ret => ret

namespace Machine

/-- A constant that fits is the same at full width. -/
theorem eval_widened {e : Expression} (he : e.Uniform) (m : Machine) :
    eval e.widened m = eval e m := by
  induction e generalizing m with
  | const width value =>
      rw [Expression.widened, eval, eval, Word.and_mask, Word.and_mask_of_lt he]
  | reg width r => rfl
  | pop width => rfl
  | load width address ih => rw [Expression.widened, eval, eval, ih he.2]
  | binary op width left right ihl ihr =>
      simp only [Expression.widened, eval, ihl he.2.1, ihr he.2.2]

theorem execute_widened {s : Statement} (hs : s.Uniform) (m : Machine) :
    execute s.widened m = execute s m := by
  cases s with
  | nop => rfl
  | push width value => rw [Statement.widened, execute, execute, eval_widened hs.2]
  | setReg width r value => rw [Statement.widened, execute, execute, eval_widened hs.2]
  | store width address value =>
      simp only [Statement.widened, execute, eval_widened hs.2.1, eval_widened hs.2.2]
  | jump target => rw [Statement.widened, execute, execute, eval_widened hs]
  | ret => rfl

/-- How wide the constants in code are makes no difference to a run. -/
theorem run_widened {ss : List Statement} (hss : ∀ s ∈ ss, s.Uniform) (m : Machine) :
    run (ss.map Statement.widened) m = run ss m := by
  induction ss generalizing m with
  | nil => rfl
  | cons s ss ih =>
      rw [List.forall_mem_cons] at hss
      rw [List.map_cons, run, run, execute_widened hss.1]
      rcases execute s m with ⟨c, m⟩
      cases c with
      | proceed => exact ih hss.2 m
      | jump a => rfl
      | ret => rfl

end Machine

theorem Register.isAlphanum_of_mem_name (r : Register) :
    ∀ c ∈ r.name.toList, c.isAlphanum = true := by
  have hall : r.name.toList.all Char.isAlphanum = true := by cases r <;> decide
  exact List.all_eq_true.mp hall

theorem Register.toList_name_eq_cons (r : Register) :
    r.name.toList = 'v' :: r.name.toList.tail := by
  cases r <;> decide

theorem Register.name_inj {r s : Register} (h : r.name = s.name) : r = s := by
  have hr := r.ofName?_name
  rw [h, s.ofName?_name] at hr
  exact (Option.some.inj hr).symm

theorem Operator.symbol_inj {a b : Operator} (h : a.symbol = b.symbol) : a = b := by
  have hfind (op : Operator) : all.find? (·.symbol == op.symbol) = some op := by
    cases op <;> rfl
  have ha := hfind a
  rw [h, hfind b] at ha
  exact (Option.some.inj ha).symm

/-- A blank ends the sign of an operator. -/
theorem Operator.ne_blank_of_mem_symbol (op : Operator) :
    ∀ c ∈ op.symbol.toList, (c != ' ') = true := by
  have hall : op.symbol.toList.all (· != ' ') = true := by cases op <;> decide
  exact List.all_eq_true.mp hall

namespace Expression

/-- The character that the text of an expression begins with. -/
def initial : Expression → Char
  | const _ _ => '0'
  | reg _ _ => 'v'
  | pop _ => 'p'
  | load _ _ => '['
  | binary _ _ _ _ => '('

theorem toList_text_pop : (pop 8).text.toList = ['p', 'o', 'p', '.', 'q'] := by decide

theorem toList_text_load (address : Expression) :
    (load 8 address).text.toList = '[' :: (address.text.toList ++ [']', '.', 'q']) := by
  simp [text, widthSuffix]

theorem toList_text_binary (op : Operator) (width : UInt64) (left right : Expression) :
    (binary op width left right).text.toList =
      '(' :: (left.text.toList ++
        ' ' :: (op.symbol.toList ++ ' ' :: (right.text.toList ++ [')']))) := by
  simp [text]

theorem toList_text_eq_cons {e : Expression} (he : e.Uniform) :
    ∃ cs, e.text.toList = e.initial :: cs := by
  cases e with
  | const width value => exact ⟨_, Literal.toList_hex value⟩
  | reg width r => exact ⟨_, r.toList_name_eq_cons⟩
  | pop width =>
      rw [Uniform] at he
      exact ⟨_, he ▸ toList_text_pop⟩
  | load width address => exact ⟨_, he.1 ▸ toList_text_load address⟩
  | binary op width left right => exact ⟨_, toList_text_binary op width left right⟩

theorem initial_eq_of_append {e e' : Expression} (he : e.Uniform) (he' : e'.Uniform)
    {k k' : List Char} (h : e.text.toList ++ k = e'.text.toList ++ k') :
    e.initial = e'.initial := by
  rcases toList_text_eq_cons he with ⟨cs, hcs⟩
  rcases toList_text_eq_cons he' with ⟨cs', hcs'⟩
  rw [hcs, hcs', List.cons_append, List.cons_append] at h
  exact (List.cons.inj h).1

/-- An expression can be told from what stands behind it, if that goes on with no letter and
    no digit, and then it is known but for the widths of its constants. -/
theorem text_append_inj {e e' : Expression} (he : e.Uniform) (he' : e'.Uniform)
    {k k' : List Char} (hk : StopsAt Char.isAlphanum k) (hk' : StopsAt Char.isAlphanum k')
    (h : e.text.toList ++ k = e'.text.toList ++ k') : e.widened = e'.widened ∧ k = k' := by
  -- Forms begin with different characters, so both expressions are of the same form.
  induction e generalizing e' k k' with
  | const width value =>
      cases e' with
      | const width' value' =>
          rcases append_inj_of_stopsAt (fun c => Literal.isAlphanum_of_mem_hex)
            (fun c => Literal.isAlphanum_of_mem_hex) hk hk' h with ⟨hhex, hrest⟩
          have hvalue := Literal.hex_inj (String.toList_inj.mp hhex)
          exact ⟨by rw [widened, widened, hvalue], hrest⟩
      | _ => exact absurd (initial_eq_of_append he he' h) (by simp [initial])
  | reg width r =>
      cases e' with
      | reg width' r' =>
          rcases append_inj_of_stopsAt r.isAlphanum_of_mem_name r'.isAlphanum_of_mem_name hk hk' h
            with ⟨hname, hrest⟩
          have hr := Register.name_inj (String.toList_inj.mp hname)
          rw [Uniform] at he he'
          exact ⟨by rw [hr, he, he'], hrest⟩
      | _ => exact absurd (initial_eq_of_append he he' h) (by simp [initial])
  | pop width =>
      cases e' with
      | pop width' =>
          rw [Uniform] at he he'
          rw [he, he'] at h ⊢
          exact ⟨rfl, List.append_cancel_left h⟩
      | _ => exact absurd (initial_eq_of_append he he' h) (by simp [initial])
  | load width address ih =>
      cases e' with
      | load width' address' =>
          rcases he with ⟨rfl, he⟩
          rcases he' with ⟨rfl, he'⟩
          simp only [toList_text_load, List.cons_append, List.append_assoc, List.cons.injEq,
            true_and] at h
          rcases ih he he' (stopsAt_cons rfl) (stopsAt_cons rfl) h with ⟨haddress, hrest⟩
          simp only [List.cons.injEq, true_and, List.nil_append] at hrest
          exact ⟨by rw [widened, widened, haddress], hrest⟩
      | _ => exact absurd (initial_eq_of_append he he' h) (by simp [initial])
  | binary op width left right ihl ihr =>
      cases e' with
      | binary op' width' left' right' =>
          rcases he with ⟨rfl, hleft, hright⟩
          rcases he' with ⟨rfl, hleft', hright'⟩
          simp only [toList_text_binary, List.cons_append, List.append_assoc, List.cons.injEq,
            true_and] at h
          rcases ihl hleft hleft' (stopsAt_cons rfl) (stopsAt_cons rfl) h with ⟨hl, h⟩
          rcases append_inj_of_stopsAt op.ne_blank_of_mem_symbol op'.ne_blank_of_mem_symbol
            (stopsAt_cons rfl) (stopsAt_cons rfl) (List.cons.inj h).2 with ⟨hop, h⟩
          rcases ihr hright hright' (stopsAt_cons rfl) (stopsAt_cons rfl) (List.cons.inj h).2
            with ⟨hr, h⟩
          have hop := Operator.symbol_inj (String.toList_inj.mp hop)
          exact ⟨by rw [widened, widened, hl, hop, hr], (List.cons.inj h).2⟩
      | _ => exact absurd (initial_eq_of_append he he' h) (by simp [initial])

theorem text_inj {e e' : Expression} (he : e.Uniform) (he' : e'.Uniform)
    (h : e.text = e'.text) : e.widened = e'.widened := by
  refine (text_append_inj he he' (stopsAt_nil _) (stopsAt_nil _) ?_).1
  rw [h]

end Expression

namespace Statement

/-- The character that the text of a statement begins with. -/
def initial : Statement → Char
  | nop => 'n'
  | push _ _ => 'p'
  | setReg _ _ _ => 'v'
  | store _ _ _ => '['
  | jump _ => 'j'
  | ret => 'r'

theorem toList_text_push (value : Expression) :
    (push 8 value).text.toList =
      ['p', 'u', 's', 'h', '.', 'q', '('] ++ (value.text.toList ++ [')']) := by
  simp [text, widthSuffix]

theorem toList_text_setReg (width : UInt64) (r : Register) (value : Expression) :
    (setReg width r value).text.toList =
      r.name.toList ++ ' ' :: '=' :: ' ' :: value.text.toList := by
  simp [text]

theorem toList_text_store (address value : Expression) :
    (store 8 address value).text.toList =
      '[' :: (address.text.toList ++ ']' :: (['.', 'q', ' ', '=', ' '] ++ value.text.toList)) := by
  simp [text, widthSuffix]

theorem toList_text_jump (target : Expression) :
    (jump target).text.toList =
      ['j', 'u', 'm', 'p', '('] ++ (target.text.toList ++ [')']) := by
  simp [text]

theorem toList_text_eq_cons {s : Statement} (hs : s.Uniform) :
    ∃ cs, s.text.toList = s.initial :: cs := by
  cases s with
  | nop => exact ⟨['o', 'p'], by decide⟩
  | push width value => exact ⟨_, hs.1 ▸ toList_text_push value⟩
  | setReg width r value =>
      rw [toList_text_setReg, r.toList_name_eq_cons]
      exact ⟨_, rfl⟩
  | store width address value => exact ⟨_, hs.1 ▸ toList_text_store address value⟩
  | jump target => exact ⟨_, toList_text_jump target⟩
  | ret => exact ⟨['e', 't', 'u', 'r', 'n'], by decide⟩

theorem initial_eq_of_text_eq {s s' : Statement} (hs : s.Uniform) (hs' : s'.Uniform)
    (h : s.text = s'.text) : s.initial = s'.initial := by
  rcases toList_text_eq_cons hs with ⟨cs, hcs⟩
  rcases toList_text_eq_cons hs' with ⟨cs', hcs'⟩
  rw [h, hcs'] at hcs
  exact (List.cons.inj hcs).1.symm

/-- A statement is known from its text, but for the widths of its constants. -/
theorem text_inj {s s' : Statement} (hs : s.Uniform) (hs' : s'.Uniform) (h : s.text = s'.text) :
    s.widened = s'.widened := by
  have hlist := congrArg String.toList h
  have hend {e e' : Expression} (he : e.Uniform) (he' : e'.Uniform)
      (h : e.text.toList ++ [')'] = e'.text.toList ++ [')']) : e.widened = e'.widened :=
    (Expression.text_append_inj he he' (stopsAt_cons rfl) (stopsAt_cons rfl) h).1
  cases s with
  | nop =>
      cases s' with
      | nop => rfl
      | _ => exact absurd (initial_eq_of_text_eq hs hs' h) (by simp [initial])
  | push width value =>
      cases s' with
      | push width' value' =>
          rcases hs with ⟨rfl, hs⟩
          rcases hs' with ⟨rfl, hs'⟩
          rw [toList_text_push, toList_text_push] at hlist
          rw [widened, widened, hend hs hs' (List.append_cancel_left hlist)]
      | _ => exact absurd (initial_eq_of_text_eq hs hs' h) (by simp [initial])
  | setReg width r value =>
      cases s' with
      | setReg width' r' value' =>
          rcases hs with ⟨rfl, hs⟩
          rcases hs' with ⟨rfl, hs'⟩
          rw [toList_text_setReg, toList_text_setReg] at hlist
          rcases append_inj_of_stopsAt r.isAlphanum_of_mem_name r'.isAlphanum_of_mem_name
            (stopsAt_cons rfl) (stopsAt_cons rfl) hlist with ⟨hr, hvalue⟩
          simp only [List.cons.injEq, true_and] at hvalue
          rw [widened, widened, Register.name_inj (String.toList_inj.mp hr),
            Expression.text_inj hs hs' (String.toList_inj.mp hvalue)]
      | _ => exact absurd (initial_eq_of_text_eq hs hs' h) (by simp [initial])
  | store width address value =>
      cases s' with
      | store width' address' value' =>
          rcases hs with ⟨rfl, haddress, hvalue⟩
          rcases hs' with ⟨rfl, haddress', hvalue'⟩
          rw [toList_text_store, toList_text_store] at hlist
          rcases Expression.text_append_inj haddress haddress' (stopsAt_cons rfl)
            (stopsAt_cons rfl) (List.cons.inj hlist).2 with ⟨ha, hrest⟩
          have hv := Expression.text_inj hvalue hvalue'
            (String.toList_inj.mp (List.append_cancel_left (List.cons.inj hrest).2))
          rw [widened, widened, ha, hv]
      | _ => exact absurd (initial_eq_of_text_eq hs hs' h) (by simp [initial])
  | jump target =>
      cases s' with
      | jump target' =>
          rw [toList_text_jump, toList_text_jump] at hlist
          rw [widened, widened, hend hs hs' (List.append_cancel_left hlist)]
      | _ => exact absurd (initial_eq_of_text_eq hs hs' h) (by simp [initial])
  | ret =>
      cases s' with
      | ret => rfl
      | _ => exact absurd (initial_eq_of_text_eq hs hs' h) (by simp [initial])

end Statement

namespace Revision

variable {r : Revision} {address : UInt64} {window : List UInt8} {i : Instruction} {s : Statement}

/-- The code of an instruction is of uniform width. The one constant that may be narrower is
    the immediate, and an immediate fits the width that it is encoded in. -/
theorem uniform_of_mem_code (hi : r.decode address window = .ok i) (hs : s ∈ r.code i) :
    s.Uniform := by
  have hword (v : UInt64) : v.toNat < 2 ^ (8 * (8 : UInt64).toNat) := v.toNat_lt
  unfold code at hs
  cases hcat : i.category with
  | stackPush =>
      simp only [hcat, List.mem_singleton] at hs
      rw [hs]
      exact ⟨rfl, hword _⟩
  | registerRelativeAddress base =>
      simp only [hcat, List.mem_singleton] at hs
      rw [hs]
      exact ⟨rfl, rfl, rfl, toNat_operand_lt_width hi⟩
  | stackBinaryOp op =>
      by_cases hop : op.isOrderSensitive = true
      · simp only [hcat, hop, if_true, List.mem_cons, List.not_mem_nil, or_false] at hs
        rcases hs with rfl | rfl | rfl
        · exact ⟨rfl, rfl⟩
        · exact ⟨rfl, rfl⟩
        · exact ⟨rfl, rfl, rfl, rfl⟩
      · simp only [hcat, hop, Bool.false_eq_true, if_false, List.mem_singleton] at hs
        rw [hs]
        exact ⟨rfl, rfl, rfl, rfl⟩
  | memoryRead =>
      simp only [hcat, List.mem_singleton] at hs
      rw [hs]
      exact ⟨rfl, rfl, rfl⟩
  | memoryWrite =>
      simp only [hcat, List.mem_cons, List.not_mem_nil, or_false] at hs
      rcases hs with rfl | rfl | rfl
      · exact ⟨rfl, rfl⟩
      · exact ⟨rfl, rfl⟩
      · exact ⟨rfl, rfl, rfl⟩
  | unconditionalBranch =>
      simp only [hcat] at hs
      split at hs <;> rw [List.mem_singleton.mp hs]
      · exact hword _
      · trivial
  | _ =>
      simp only [hcat, List.mem_singleton] at hs
      rw [hs]
      trivial

end Revision

/-- Statements are known from their texts, but for the widths of their constants. -/
theorem map_text_inj {ss ss' : List Statement} (hss : ∀ s ∈ ss, s.Uniform)
    (hss' : ∀ s ∈ ss', s.Uniform) (h : ss.map Statement.text = ss'.map Statement.text) :
    ss.map Statement.widened = ss'.map Statement.widened := by
  induction ss generalizing ss' with
  | nil =>
      cases ss' with
      | nil => rfl
      | cons s' ss' => contradiction
  | cons s ss ih =>
      cases ss' with
      | nil => contradiction
      | cons s' ss' =>
          rw [List.forall_mem_cons] at hss hss'
          rw [List.map_cons, List.map_cons, List.cons.injEq] at h
          rw [List.map_cons, List.map_cons, Statement.text_inj hss.1 hss'.1 h.1,
            ih hss.2 hss'.2 h.2]

/-- The text of code is faithful. All code that is lifted has one width, that of a register,
    but for constants, and these fit their width. Of two pieces of such code that have the
    same text, statement by statement, each is the other but for the widths of the constants,
    and they do the same on every machine. -/
theorem text_faithful {ss ss' : List Statement} (hss : ∀ s ∈ ss, s.Uniform)
    (hss' : ∀ s ∈ ss', s.Uniform) (h : ss.map Statement.text = ss'.map Statement.text) :
    (∀ (r : Revision) address window,
      ∀ s ∈ ((r.liftAt address window : Recorder _).run {}).2.statements, s.Uniform) ∧
    ss.map Statement.widened = ss'.map Statement.widened ∧
    ∀ m, Machine.run ss m = Machine.run ss' m := by
  have hwidened := map_text_inj hss hss' h
  refine ⟨fun r address window s hs => ?_, hwidened, fun m => ?_⟩
  · rcases Revision.exists_mem_code_of_liftAt hs with ⟨i, hi, hs⟩
    exact Revision.uniform_of_mem_code hi hs
  · rw [← Machine.run_widened hss, hwidened, Machine.run_widened hss']

/-- Two pieces of code whose constants are of different widths. They have the same text. -/
theorem text_faithful_constants :
    let ss : List Statement :=
      [.push 8 (.binary .add 8 (.reg 8 .varg1) (.const 4 0x10)), .jump (.const 8 1)]
    let ss' : List Statement :=
      [.push 8 (.binary .add 8 (.reg 8 .varg1) (.const 8 0x10)), .jump (.const 1 1)]
    ss ≠ ss' ∧ (∀ s ∈ ss, s.Uniform) ∧ (∀ s ∈ ss', s.Uniform) ∧
    ss.map Statement.text = ["push.q((varg1 + 0x10))", "jump(0x1)"] ∧
    ss'.map Statement.text = ["push.q((varg1 + 0x10))", "jump(0x1)"] ∧
    ss.map Statement.widened = ss'.map Statement.widened ∧
    ∀ m, Machine.run ss m = Machine.run ss' m := by
  intro ss ss'
  have hss : ∀ s ∈ ss, s.Uniform := by decide
  have hss' : ∀ s ∈ ss', s.Uniform := by decide
  have htext : ss.map Statement.text = ["push.q((varg1 + 0x10))", "jump(0x1)"] := by decide
  have htext' : ss'.map Statement.text = ["push.q((varg1 + 0x10))", "jump(0x1)"] := by decide
  exact ⟨by decide, hss, hss', htext, htext', (text_faithful hss hss' (htext.trans htext'.symm)).2⟩

end StackLift
