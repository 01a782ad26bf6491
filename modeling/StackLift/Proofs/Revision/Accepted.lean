import StackLift.Proofs.Except
import StackLift.Proofs.Opcode.Table
import StackLift.Revision.Builtin

/-!
# Accepted Definitions

What a revision has in common with the definition it was made from.

A revision is made by a row of checks, and its table and its pop orders are the
definition's in another form. Everything that is proved about a revision goes
back to the definition through the lemmas here: a byte means what the entry says
in whose byte list it stands, an operator pops its operands in the order that is
written down for it, and an opcode that can be met has passed the rules.

## Main definitions

* `Definition.entryOf?`: The entry in whose byte list a byte stands.
* `Definition.popOrder`: The pop order written down for an operator, or else the
  observed one.

## Theorems

* `ofDefinition_eq_ok_iff`: The checks a definition has to pass.
* `lookup?_eq_entryOf?`: A byte means what its entry says.
* `check_of_lookup?`: What a byte means has passed the rules.
* `popOrder_eq_definition`: The pop orders are those of the definition.
* `exists_revision`: The built-in definitions are accepted.
-/

namespace StackLift

namespace Operator

theorem ofName?_eq_some_iff {text : String} {op : Operator} :
    ofName? text = some op ↔ text = op.name := by
  constructor
  · intro h
    have hname := List.find?_some h
    exact (beq_iff_eq.mp hname).symm
  · rintro rfl
    cases op <;> decide

end Operator

namespace Definition

/-- The first entry in whose byte list the byte stands. -/
def entryOf? (d : Definition) (b : UInt8) : Option OpcodeEntry := d.opcodes.find? (b ∈ ·.bytes)

/-- The pop order written down for an operator. Where there is none, differences
    and left shifts pop the left operand first and right shifts the right one. -/
def popOrder (d : Definition) (op : Operator) : PopOrder :=
  d.popOrders.getD op.name (if op = .lsr then .rightFirst else .leftFirst)

variable {d : Definition} {file : RegisterFile} {t u : OpcodeTable} {e : OpcodeEntry}

theorem enter_eq_ok_iff :
    enter file t e = .ok u ↔ e.check file = .ok () ∧ t.insert e.bytes e.opcode = .ok u := by
  rw [enter, bind_eq_ok_iff]
  constructor
  · intro hparts
    rcases hparts with ⟨_, hcheck, h⟩
    refine ⟨hcheck, ?_⟩
    cases hins : t.insert e.bytes e.opcode with
    | error b => rw [hins] at h; contradiction
    | ok v =>
        rw [hins] at h
        cases h
        rfl
  · intro hparts
    rcases hparts with ⟨hcheck, hins⟩
    exact ⟨(), hcheck, by rw [hins]⟩

/-- Entering entries one after the other: each of them follows the rules, and a
    byte that meant nothing before means what the first entry says in whose byte
    list it stands. -/
theorem of_foldlM_enter {es : List OpcodeEntry} (h : es.foldlM (enter file) t = .ok u)
    (ht : t.WellFormed) :
    (∀ e ∈ es, e.check file = .ok ()) ∧ u.WellFormed ∧
      ∀ b, u.lookup? b = (t.lookup? b).or ((es.find? (b ∈ ·.bytes)).map OpcodeEntry.opcode) := by
  -- Along the entries, for every table that they may be entered into.
  induction es generalizing t with
  | nil =>
      cases h
      refine ⟨fun e he => absurd he List.not_mem_nil, ht, fun b => ?_⟩
      rw [List.find?_nil, Option.map_none, Option.or_none]
  | cons e es ih =>
      rw [List.foldlM_cons] at h
      rcases bind_eq_ok_iff.mp h with ⟨v, hv, h⟩
      rcases enter_eq_ok_iff.mp hv with ⟨hcheck, hins⟩
      rcases ih h (OpcodeTable.wellFormed_of_insert hins ht) with ⟨hchecks, hu, hlookup⟩
      refine ⟨?_, hu, fun b => ?_⟩
      · intro f hf
        rcases List.mem_cons.mp hf with rfl | hmem
        · exact hcheck
        · exact hchecks f hmem
      · rw [hlookup b, OpcodeTable.lookup?_of_insert hins ht b]
        -- A byte of the entry was free, or else it could not have been entered.
        by_cases hb : b ∈ e.bytes
        · rw [if_pos hb, List.find?_cons_of_pos (by simpa using hb),
            OpcodeTable.lookup?_eq_none_of_insert hins hb, Option.some_or, Option.none_or,
            Option.map_some]
        · rw [if_neg hb, List.find?_cons_of_neg (by simpa using hb)]

theorem table_eq_ok_iff :
    d.table = .ok t ↔
      d.opcodes.foldlM (enter d.registerFile) ∅ = .ok t ∧ t.isEmpty = false := by
  rw [table, bind_eq_ok_iff]
  constructor
  · intro hparts
    rcases hparts with ⟨v, hv, h⟩
    cases hempty : v.isEmpty with
    | true => rw [hempty] at h; contradiction
    | false =>
        rw [hempty] at h
        cases h
        exact ⟨hv, hempty⟩
  · intro hparts
    rcases hparts with ⟨ht, hempty⟩
    exact ⟨t, ht, by rw [hempty]; rfl⟩

theorem operatorOrder_eq_ok_iff {entry : String × PopOrder} {y : Operator × PopOrder} :
    operatorOrder entry = .ok y ↔
      entry = (y.1.name, y.2) ∧ y.1.isOrderSensitive = true := by
  rcases entry with ⟨name, order⟩
  rcases y with ⟨op, order'⟩
  simp only [operatorOrder, Prod.mk.injEq]
  -- A name that stands for no operator is not the name of one.
  cases hname : Operator.ofName? name with
  | none =>
      constructor
      · intro h
        contradiction
      · intro hparts
        rcases hparts with ⟨⟨hn, _⟩, _⟩
        rw [Operator.ofName?_eq_some_iff.mpr hn] at hname
        contradiction
  | some op' =>
      have hn : name = op'.name := Operator.ofName?_eq_some_iff.mp hname
      have hiff : name = op.name ↔ op' = op := by
        rw [← Operator.ofName?_eq_some_iff, hname, Option.some.injEq]
      rw [hiff]
      by_cases hop : op'.isOrderSensitive = true
      · simp only [hop, if_true, Except.ok.injEq, Prod.mk.injEq]
        constructor
        · intro hparts
          rcases hparts with ⟨rfl, rfl⟩
          exact ⟨⟨rfl, rfl⟩, hop⟩
        · intro hparts
          rcases hparts with ⟨h, _⟩
          exact h
      · simp only [hop, Bool.false_eq_true, if_false, reduceCtorEq, false_iff]
        intro hparts
        rcases hparts with ⟨⟨rfl, _⟩, hc⟩
        exact hop hc

end Definition

namespace Revision

variable {d : Definition} {r : Revision}

/-- The checks a definition has to pass, and what the revision takes from it. -/
theorem ofDefinition_eq_ok_iff :
    ofDefinition d = .ok r ↔
      d.registerFile.check = .ok () ∧ d.checkConvention = .ok () ∧
        d.operatorOrders = .ok r.popOrders ∧ d.table = .ok r.opcodes ∧
        r.name = d.name ∧ r.registers = d.registerFile ∧ r.branchMode = d.branchMode ∧
        r.callingConvention = d.callingConvention := by
  simp only [ofDefinition, bind_eq_ok_iff]
  constructor
  · intro hparts
    rcases hparts with ⟨_, hfile, _, hconv, orders, horders, t, ht, h⟩
    cases h
    exact ⟨hfile, hconv, horders, ht, rfl, rfl, rfl, rfl⟩
  · intro hparts
    rcases hparts with ⟨hfile, hconv, horders, ht, hname, hregs, hmode, hcc⟩
    refine ⟨(), hfile, (), hconv, _, horders, _, ht, ?_⟩
    rw [← hname, ← hregs, ← hmode, ← hcc]
    rfl

variable (h : ofDefinition d = .ok r)
include h

theorem name_eq_definition : r.name = d.name :=
  (ofDefinition_eq_ok_iff.mp h).2.2.2.2.1

theorem registers_eq_definition : r.registers = d.registerFile :=
  (ofDefinition_eq_ok_iff.mp h).2.2.2.2.2.1

theorem branchMode_eq_definition : r.branchMode = d.branchMode :=
  (ofDefinition_eq_ok_iff.mp h).2.2.2.2.2.2.1

/-- A byte means what the entry says in whose byte list it stands. -/
theorem lookup?_eq_entryOf? (b : UInt8) :
    r.opcodes.lookup? b = (d.entryOf? b).map OpcodeEntry.opcode := by
  have htable := (ofDefinition_eq_ok_iff.mp h).2.2.2.1
  have hfold := (Definition.table_eq_ok_iff.mp htable).1
  rw [(Definition.of_foldlM_enter hfold OpcodeTable.wellFormed_empty).2.2 b,
    OpcodeTable.lookup?_empty, Option.none_or]
  rfl

/-- What a byte means is the opcode of an entry that has passed the rules. -/
theorem check_of_lookup? {b : UInt8} {o : Opcode} (hb : r.opcodes.lookup? b = some o) :
    ∃ e ∈ d.opcodes, e.opcode = o ∧ e.check d.registerFile = .ok () := by
  have htable := (ofDefinition_eq_ok_iff.mp h).2.2.2.1
  have hfold := (Definition.table_eq_ok_iff.mp htable).1
  rw [lookup?_eq_entryOf? h, Option.map_eq_some_iff] at hb
  rcases hb with ⟨e, he, heo⟩
  have hmem : e ∈ d.opcodes := List.mem_of_find?_eq_some he
  exact ⟨e, hmem, heo, (Definition.of_foldlM_enter hfold OpcodeTable.wellFormed_empty).1 e hmem⟩

/-- The pop orders of a revision are those that its definition writes down, with
    the operators in place of their names. -/
theorem mem_popOrders_iff (op : Operator) (order : PopOrder) :
    (op, order) ∈ r.popOrders ↔
      d.popOrders[op.name]? = some order ∧ op.isOrderSensitive = true := by
  have horders := (ofDefinition_eq_ok_iff.mp h).2.2.1
  rw [mem_iff_of_mapM_eq_ok horders]
  simp only [Definition.operatorOrder_eq_ok_iff]
  constructor
  · intro hparts
    rcases hparts with ⟨entry, hmem, rfl, hop⟩
    exact ⟨Std.ExtTreeMap.mem_toList_iff_getElem?_eq_some.mp hmem, hop⟩
  · intro hparts
    rcases hparts with ⟨hget, hop⟩
    exact ⟨_, Std.ExtTreeMap.mem_toList_iff_getElem?_eq_some.mpr hget, rfl, hop⟩

/-- An operator that depends on the order of its operands pops them in the order
    that the definition writes down, or else in the observed one. -/
theorem popOrder_eq_definition {op : Operator} (hop : op.isOrderSensitive = true) :
    r.popOrder op = d.popOrder op := by
  rw [Definition.popOrder, Std.ExtTreeMap.getD_eq_getD_getElem?, popOrder]
  -- The search goes by operators, the definition by names.
  cases hfind : r.popOrders.find? (·.1 = op) with
  | some entry =>
      rcases entry with ⟨op', order⟩
      have heq : op' = op := by simpa using List.find?_some hfind
      have hmem := List.mem_of_find?_eq_some hfind
      rw [heq, mem_popOrders_iff h] at hmem
      rw [hmem.1, Option.getD_some]
  | none =>
      have hnone : d.popOrders[op.name]? = none := by
        cases hget : d.popOrders[op.name]? with
        | none => rfl
        | some order =>
            have hmem := (mem_popOrders_iff h op order).mpr ⟨hget, hop⟩
            exact absurd (List.find?_eq_none.mp hfind _ hmem) (by simp)
      rw [hnone, Option.getD_none]
      -- What is left is the table of observed orders.
      cases op <;> rfl

end Revision

theorem BuiltinRevision.exists_revision (b : BuiltinRevision) :
    ∃ r, Revision.ofDefinition b.definition = .ok r := by
  have hok : (Revision.ofDefinition b.definition).isOk = true := by cases b <;> decide
  cases h : Revision.ofDefinition b.definition with
  | error e => rw [h] at hok; contradiction
  | ok r => exact ⟨r, rfl⟩

end StackLift
