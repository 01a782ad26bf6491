import StackLift.Proofs.Lift.Control
import StackLift.Proofs.Lift.Registers
import StackLift.Proofs.Machine.Agree
import StackLift.Proofs.Revision.Checks

/-!
# Operand Holders between Instructions

The operand holders carry nothing from one instruction to the next.

A category that is lifted through the holders fills both of them before its code computes
with one, in whatever order the revision pops the operands. No other category has a holder
in its code at all. So if the holders are stale in front of an instruction, its code does
not notice, and behind it either both are fresh or both are as stale as before. Run on two
machines that differ in the holders only, the code of a block passes control on alike,
leaves the same memory and the same registers but for the holders, and leaves the same
holders as well if one of its instructions has filled them.

None of this takes an accepted definition. That the holders are declared is another
matter, and code runs the same way where they are not.

## Theorems

* `readsFresh_code`: The code of an instruction does not compute with stale holders.
* `readsFresh_flatMap_code`: Nor does the code of instructions one after the other.
* `run_liftBlock_listing_agree`: Running a block on machines that differ in the holders.
-/

namespace StackLift

namespace Revision

variable {r : Revision} {image : Image} {a : UInt64} {i : Instruction} {stale : List Register}

/-- No address is computed from an operand holder. -/
theorem baseRegister_not_mem (r : Revision) (base : AddressBase) (operand : UInt64) :
    r.baseRegister base operand ∉ [.vlhs, .vrhs] := by
  unfold baseRegister
  cases base with
  | registerFile => simp
  | argument =>
      cases r.registers.argumentBase with
      | split => by_cases h : operand = 0 <;> simp [h]
      | single => simp
      | absent => simp

/-- Two values popped into the holders, and then a statement that may compute with
    them. -/
theorem readsFresh_popInto (hstale : stale ⊆ [.vlhs, .vrhs]) {first second : Register}
    (h : (first, second) = (.vlhs, .vrhs) ∨ (first, second) = (.vrhs, .vlhs)) {s : Statement}
    (hs : s.assigned? = none) :
    let code := [.setReg 8 first (.pop 8), .setReg 8 second (.pop 8), s]
    ReadsFresh stale code ∧ code.foldl Statement.leavesStale stale = [] := by
  intro code
  -- The first statement fills one holder and the second one the other.
  have hnil : (Statement.setReg 8 second (.pop 8)).leavesStale
      ((Statement.setReg 8 first (.pop 8)).leavesStale stale) = [] := by
    rw [List.eq_nil_iff_forall_not_mem]
    intro x hx
    rw [Statement.leavesStale, List.mem_filter, Statement.leavesStale, List.mem_filter] at hx
    have hholder := List.mem_pair.mp (hstale hx.1.1)
    rcases h with h | h <;> cases h <;> rcases hholder with rfl | rfl <;>
      simp [Statement.assigned?] at hx
  refine ⟨⟨fun x hx => absurd hx List.not_mem_nil, fun x hx => absurd hx List.not_mem_nil, ?_⟩, ?_⟩
  · rw [hnil]
    exact ⟨fun x _ => List.not_mem_nil, trivial⟩
  · rw [List.foldl_cons, List.foldl_cons, hnil, List.foldl_cons, List.foldl_nil,
      Statement.leavesStale_of_assigned?_eq_none [] hs]

/-- The code of an instruction does not compute with holders that are stale in front of
    it, and fills both of them or none. -/
theorem readsFresh_code (hstale : stale ⊆ [.vlhs, .vrhs]) (r : Revision) (i : Instruction) :
    ReadsFresh stale (r.code i) ∧
      (r.code i).foldl Statement.leavesStale stale =
        if i.category.needsScratch then [] else stale := by
  have hkeeps {s : Statement} (hs : s.assigned? = none) : s.leavesStale stale = stale :=
    Statement.leavesStale_of_assigned?_eq_none stale hs
  unfold code
  cases hcat : i.category with
  | registerRelativeAddress base =>
      -- The one register in the code is not a holder.
      refine ⟨⟨fun x hx hc => ?_, trivial⟩, hkeeps rfl⟩
      have hx : x = r.baseRegister base (i.operand?.getD 0) := List.mem_singleton.mp hx
      exact r.baseRegister_not_mem base _ (hx ▸ hstale hc)
  | stackBinaryOp op =>
      by_cases hop : op.isOrderSensitive = true
      · simp only [hop, if_true, Category.needsScratch]
        exact readsFresh_popInto hstale (r.holders_cases op) rfl
      · simp only [hop, Bool.false_eq_true, if_false, Category.needsScratch]
        exact ⟨⟨fun x hx => absurd hx List.not_mem_nil, trivial⟩, hkeeps rfl⟩
  | memoryWrite => exact readsFresh_popInto hstale (Or.inl rfl) rfl
  | unconditionalBranch =>
      cases r.branchTarget? i with
      | none => exact ⟨⟨fun x hx => absurd hx List.not_mem_nil, trivial⟩, hkeeps rfl⟩
      | some t => exact ⟨⟨fun x hx => absurd hx List.not_mem_nil, trivial⟩, hkeeps rfl⟩
  | _ => exact ⟨⟨fun x hx => absurd hx List.not_mem_nil, trivial⟩, hkeeps rfl⟩

/-- Nor does the code of instructions one after the other, and it fills both holders if
    the code of one of them does. -/
theorem readsFresh_flatMap_code (hstale : stale ⊆ [.vlhs, .vrhs]) (r : Revision)
    (is : List Instruction) :
    ReadsFresh stale (is.flatMap r.code) ∧
      (is.flatMap r.code).foldl Statement.leavesStale stale =
        if ∃ i ∈ is, i.category.needsScratch = true then [] else stale := by
  induction is generalizing stale with
  | nil =>
      refine ⟨trivial, ?_⟩
      rw [if_neg (by simp only [List.not_mem_nil, false_and, exists_false, not_false_eq_true])]
      rfl
  | cons i is ih =>
      rcases readsFresh_code hstale r i with ⟨hfresh, hleft⟩
      have hrest : (r.code i).foldl Statement.leavesStale stale ⊆ [.vlhs, .vrhs] := by
        rw [hleft]
        split
        · exact List.nil_subset _
        · exact hstale
      rcases ih hrest with ⟨hfresh', hleft'⟩
      rw [List.flatMap_cons, readsFresh_append]
      refine ⟨⟨hfresh, hfresh'⟩, ?_⟩
      rw [List.foldl_append, hleft', hleft]
      simp only [List.exists_mem_cons_iff]
      by_cases hi : i.category.needsScratch = true
      · simp only [hi, if_true, true_or, ite_self]
      · simp only [hi, Bool.false_eq_true, if_false, false_or]

/-- The code of a listing's block, run on two machines that differ in the operand holders
    only: control is passed on alike, and the machines that are left differ in the holders
    only. They do not differ at all if an instruction of the block writes memory or applies
    an operator that depends on the order of its operands. -/
theorem run_liftBlock_listing_agree (r : Revision) (image : Image) (a : UInt64) {m n : Machine}
    (hm : m.stackPointer = .vsp) (hn : n.stackPointer = .vsp) (hmemory : m.memory = n.memory)
    (hget : ∀ x, x ≠ .vlhs → x ≠ .vrhs → m.get x = n.get x) :
    let b := (r.listing image a).block
    ∃ c, r.liftBlock image b = .ok c ∧
      let p := Machine.run c.statements m
      let q := Machine.run c.statements n
      p.1 = q.1 ∧ p.2.memory = q.2.memory ∧
        (∀ x, x ≠ .vlhs → x ≠ .vrhs → p.2.get x = q.2.get x) ∧
        ((∃ t ∈ b.addresses, ∃ i, r.decodeAt image t = .ok i ∧
            i.category ∈ [.memoryWrite, .stackBinaryOp .sub, .stackBinaryOp .shl,
              .stackBinaryOp .lsr]) →
          p.2.get .vlhs = q.2.get .vlhs ∧ p.2.get .vrhs = q.2.get .vrhs) := by
  intro b
  refine ⟨_, liftBlock_listing r image a, ?_⟩
  intro p q
  have hwalk := walk_straightLine r image a
  have hmn : Machine.AgreeBut [.vlhs, .vrhs] m n := by
    refine ⟨hm.trans hn.symm, hmemory, fun x hx => ?_⟩
    rw [List.mem_pair, not_or] at hx
    exact hget x hx.1 hx.2
  have hsp : m.stackPointer ∉ [.vlhs, .vrhs] := by
    rw [hm]
    decide
  rcases readsFresh_flatMap_code (List.Subset.refl _) r (r.straightLine image a).instructions with
    ⟨hfresh, hleft⟩
  -- All of the code is executed, so all of it counts for what is stale in the end.
  rcases Machine.agreeBut_run hmn hsp hfresh with ⟨hcontrol, _, hagree⟩
  rw [executed_code_walk hwalk, hleft, ← statements_recording] at hagree
  rw [← statements_recording] at hcontrol
  refine ⟨hcontrol, hagree.memory, fun x hlhs hrhs => hagree.get x fun hc => ?_, ?_⟩
  · split at hc
    · contradiction
    · exact (List.mem_pair.mp hc).elim hlhs hrhs
  · rintro ⟨t, ht, i, hi, hcat⟩
    -- The instruction at a mark of the block is one of the walk.
    rw [addresses_listing] at ht
    rcases List.mem_map.mp ht with ⟨j, hj, rfl⟩
    cases (hwalk.decodeAt_of_mem hj).symm.trans hi
    rw [if_pos ⟨i, hj, Category.needsScratch_iff.mpr hcat⟩] at hagree
    exact ⟨hagree.get _ List.not_mem_nil, hagree.get _ List.not_mem_nil⟩

/-- A store, run on machines whose holders have nothing in common. -/
theorem run_liftBlock_listing_agree_store : ∃ r,
    ofDefinition BuiltinRevision.tigress3.definition = .ok r ∧
    let image : Image := ⟨0x1000, #[0xdf, 0xb3], by decide⟩
    let m := Machine.start .vsp 0xfffffffffffffffc
    let n := (m.set .vlhs 1).set .vrhs 2
    m.get .vlhs ≠ n.get .vlhs ∧ m.get .vrhs ≠ n.get .vrhs ∧
    ∃ c, r.liftBlock image (r.listing image 0x1000).block = .ok c ∧
      let p := Machine.run c.statements m
      let q := Machine.run c.statements n
      p.1 = q.1 ∧ p.2.memory = q.2.memory ∧
        (∀ x, x ≠ .vlhs → x ≠ .vrhs → p.2.get x = q.2.get x) ∧
        p.2.get .vlhs = q.2.get .vlhs ∧ p.2.get .vrhs = q.2.get .vrhs := by
  rcases BuiltinRevision.exists_revision .tigress3 with ⟨r, hr⟩
  refine ⟨r, hr, ?_⟩
  intro image m n
  have hget : ∀ x, x ≠ .vlhs → x ≠ .vrhs → m.get x = n.get x := by
    intro x hlhs hrhs
    cases x <;> first | rfl | contradiction
  -- The first byte of the image stands for the store.
  have hlookup : r.opcodes.lookup? 0xdf = some ⟨"wmem", .absent, .memoryWrite⟩ := by
    rw [lookup?_eq_entryOf? hr]
    decide
  have hi : ∃ i, r.decodeAt image 0x1000 = .ok i ∧ i.category = .memoryWrite := by
    have hmax : r.maxLength = 9 := by
      have h : (ofDefinition BuiltinRevision.tigress3.definition).toOption.map maxLength =
          some 9 := by decide
      rw [hr] at h
      exact Option.some.inj h
    have hwindow : image.window 0x1000 r.maxLength = 0xdf :: [0xb3] := by
      rw [hmax]
      decide
    exact ⟨_, decode_eq_ok_iff.mpr ⟨0xdf, _, _, hwindow, hlookup, by decide, rfl⟩, rfl⟩
  rcases hi with ⟨i, hi, hcat⟩
  have hmem : (0x1000 : UInt64) ∈ (r.listing image 0x1000).block.addresses := by
    rw [addresses_listing]
    exact List.mem_map.mpr
      ⟨i, (walk_straightLine r image 0x1000).mem_of_decodeAt hi, address_of_decodeAt hi⟩
  rcases run_liftBlock_listing_agree r image 0x1000 (m := m) (n := n) rfl rfl rfl hget with
    ⟨c, hc, hcontrol, hmemory, hregs, hholders⟩
  refine ⟨by decide, by decide, c, hc, hcontrol, hmemory, hregs, hholders ?_⟩
  exact ⟨0x1000, hmem, i, hi, hcat ▸ List.mem_cons_self⟩

end Revision

end StackLift
