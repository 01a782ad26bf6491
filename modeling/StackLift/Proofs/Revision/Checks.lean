import StackLift.Proofs.Instruction.Decode
import StackLift.Proofs.Revision.Coherent
import StackLift.Registry

/-!
# Checking Definitions

The definitions that describe a revision are the coherent ones.

For each of the checks there are two lemmas: what it lets through, and that what it
reports is so. Put together, what is accepted is coherent, and what is turned down is
turned down for something that is wrong with it. Since nothing is wrong with a coherent
definition, none of them is turned down, and no check has to be run forwards to see
that.

The one check that is not about a single part of the definition is whether two entries
share a byte. Filling the table decides it: each entry adds the bytes of its list to
those that are taken, and a byte is taken or not, so that no more than one entry can
have it.

## Theorems

* `toNat_isTaken_of_foldlM_enter`: How often bytes are taken by entering entries.
* `coherent_of_ofDefinition`: What is accepted is coherent.
* `holds_of_ofDefinition`: What is reported as wrong is wrong.
* `lookup?_of_ofDefinition`: What a byte means, by the only entry that has it.
* `revision_iff_coherent`: The definitions that describe a revision, and what the bytes
  mean in it.
-/

namespace StackLift

theorem firstRepeated?_eq_none {α : Type} [DecidableEq α] {seen xs : List α}
    (h : firstRepeated? seen xs = none) : xs.Nodup ∧ ∀ x ∈ xs, x ∉ seen := by
  induction xs generalizing seen with
  | nil => exact ⟨List.nodup_nil, fun x hx => absurd hx List.not_mem_nil⟩
  | cons x xs ih =>
      rw [firstRepeated?] at h
      by_cases hx : x ∈ seen
      · rw [if_pos hx] at h
        contradiction
      · rw [if_neg hx] at h
        rcases ih h with ⟨hnodup, hseen⟩
        refine ⟨List.nodup_cons.mpr ⟨fun hmem => hseen x hmem List.mem_cons_self, hnodup⟩, ?_⟩
        refine List.forall_mem_cons.mpr ⟨hx, fun y hy hys => ?_⟩
        exact hseen y hy (List.mem_cons_of_mem x hys)

theorem firstRepeated?_eq_some {α : Type} [DecidableEq α] {seen xs : List α} {x : α}
    (h : firstRepeated? seen xs = some x) : 2 ≤ (seen ++ xs).count x := by
  induction xs generalizing seen with
  | nil => contradiction
  | cons y xs ih =>
      rw [firstRepeated?] at h
      by_cases hy : y ∈ seen
      · rw [if_pos hy] at h
        cases h
        have hpos := List.count_pos_iff.mpr hy
        rw [List.count_append, List.count_cons_self]
        omega
      · rw [if_neg hy] at h
        -- Moving an element over to those that were seen does not change the count.
        rw [List.perm_middle.count_eq]
        exact ih h

namespace Category

variable {c : Category}

theorem takesOperand_eq_false_iff : c.takesOperand = false ↔
    c ≠ .stackPush ∧ (∀ base, c ≠ .registerRelativeAddress base) ∧ c ≠ .unconditionalBranch := by
  cases c <;> simp [takesOperand]

theorem needsScratch_iff : c.needsScratch = true ↔
    c ∈ [.memoryWrite, .stackBinaryOp .sub, .stackBinaryOp .shl, .stackBinaryOp .lsr] := by
  cases c with
  | stackBinaryOp op => cases op <;> decide
  | registerRelativeAddress base => cases base <;> decide
  | _ => decide

end Category

theorem RegisterFile.argumentBase_eq_absent_iff {file : RegisterFile} :
    file.argumentBase = .absent ↔ .varg ∉ file ∧ ¬(.varg1 ∈ file ∧ .varg2 ∈ file) := by
  unfold argumentBase
  split_ifs <;> simp_all

theorem OpcodeTable.toNat_isTaken_of_insert {t u : OpcodeTable} {bytes : List UInt8} {o : Opcode}
    (h : t.insert bytes o = .ok u) (b : UInt8) :
    (u.isTaken b).toNat = (t.isTaken b).toNat + if b ∈ bytes then 1 else 0 := by
  rw [isTaken, slot_of_insert_eq_ok h]
  by_cases hb : b ∈ bytes
  · rw [if_pos hb, if_pos hb, isTaken, slot_eq_none_of_insert h hb]
    rfl
  · rw [if_neg hb, if_neg hb]
    rfl

namespace OpcodeEntry

variable {e : OpcodeEntry} {file : RegisterFile}

theorem fitsWidth_iff : e.FitsWidth ↔
    (e.opcode.category.takesOperand = true ↔ e.opcode.width ≠ .absent) := by
  rw [FitsWidth, ← Category.takesOperand_eq_false_iff, ← Bool.not_eq_true]
  tauto

/-- An opcode that has passed the rules is coherent. -/
theorem coherent_of_check (h : e.check file = .ok ()) : e.Coherent file.toList := by
  rcases check_eq_ok_iff.mp h with ⟨hbytes, hwidth, hholders, hargument, hfile⟩
  refine ⟨hbytes, fitsWidth_iff.mpr hwidth, fun hc => ?_, fun hc => ?_, hfile⟩
  · exact of_decide_eq_true (hholders (Category.needsScratch_iff.mpr hc))
  · have hbase := mt RegisterFile.argumentBase_eq_absent_iff.mpr (hargument hc)
    change .varg ∈ file ∨ .varg1 ∈ file ∨ .varg2 ∈ file
    tauto

end OpcodeEntry

namespace Definition

variable {d : Definition} {file : RegisterFile} {t u : OpcodeTable} {es : List OpcodeEntry}

/-- Entering entries one after the other takes a byte as often as it stands in the byte
    list of an entry. Since a byte is taken once at most, the entries share none. -/
theorem toNat_isTaken_of_foldlM_enter (h : es.foldlM (enter file) t = .ok u) (b : UInt8) :
    (u.isTaken b).toNat = (t.isTaken b).toNat + es.countP (b ∈ ·.bytes) := by
  induction es generalizing t with
  | nil =>
      cases h
      rfl
  | cons e es ih =>
      rw [List.foldlM_cons] at h
      rcases bind_eq_ok_iff.mp h with ⟨v, hv, h⟩
      have htaken := OpcodeTable.toNat_isTaken_of_insert (enter_eq_ok_iff.mp hv).2 b
      rw [ih h, htaken, List.countP_cons]
      simp only [decide_eq_true_eq]
      omega

theorem descriptors_of_foldlM_enter (h : es.foldlM (enter file) t = .ok u) :
    u.descriptors = t.descriptors ++ es.map OpcodeEntry.opcode := by
  induction es generalizing t with
  | nil =>
      cases h
      exact (List.append_nil _).symm
  | cons e es ih =>
      rw [List.foldlM_cons] at h
      rcases bind_eq_ok_iff.mp h with ⟨v, hv, h⟩
      rw [ih h, OpcodeTable.descriptors_of_insert_eq_ok (enter_eq_ok_iff.mp hv).2,
        List.append_assoc]
      rfl

theorem hasArgumentScheme_iff : d.HasArgumentScheme ↔
    ¬((.varg ∈ d.registerFile ∧ (.varg1 ∈ d.registerFile ∨ .varg2 ∈ d.registerFile)) ∨
      ¬(.varg1 ∈ d.registerFile ↔ .varg2 ∈ d.registerFile)) := by
  change (.varg ∉ d.registerFile ∧ .varg1 ∉ d.registerFile ∧ .varg2 ∉ d.registerFile) ∨
    (.varg ∈ d.registerFile ∧ .varg1 ∉ d.registerFile ∧ .varg2 ∉ d.registerFile) ∨
    (.varg ∉ d.registerFile ∧ .varg1 ∈ d.registerFile ∧ .varg2 ∈ d.registerFile) ↔ _
  tauto

theorem of_check_registerFile (h : d.registerFile.check = .ok ()) :
    .vsp ∈ d.registers ∧ d.registers.Nodup ∧ d.HasArgumentScheme := by
  rcases ite_error_eq_ok_iff.mp h with ⟨hvsp, h⟩
  cases hrep : firstRepeated? [] d.registerFile.toList with
  | some x =>
      rw [hrep] at h
      contradiction
  | none =>
      rw [hrep] at h
      rcases ite_error_eq_ok_iff.mp h with ⟨harg, _⟩
      exact ⟨not_not.mp hvsp, (firstRepeated?_eq_none hrep).1, hasArgumentScheme_iff.mpr harg⟩

theorem holds_of_check_registerFile {x : Inconsistency} (h : d.registerFile.check = .error x) :
    x.Holds d := by
  rcases ite_error_eq_error_iff.mp h with ⟨hvsp, rfl⟩ | ⟨_, h⟩
  · exact hvsp
  · cases hrep : firstRepeated? [] d.registerFile.toList with
    | some y =>
        rw [hrep] at h
        cases h
        exact firstRepeated?_eq_some hrep
    | none =>
        rw [hrep] at h
        rcases ite_error_eq_error_iff.mp h with ⟨harg, rfl⟩ | ⟨_, h⟩
        · exact fun hscheme => hasArgumentScheme_iff.mp hscheme harg
        · contradiction

theorem of_checkConvention (h : d.checkConvention = .ok ()) :
    ∀ x ∈ d.callingConvention, x ∈ d.registers := by
  intro x hx
  cases hfind : d.callingConvention.find? (· ∉ d.registerFile) with
  | some y =>
      rw [checkConvention, hfind] at h
      contradiction
  | none => exact not_not.mp fun hmem =>
      List.find?_eq_none.mp hfind x hx (decide_eq_true hmem)

theorem holds_of_checkConvention {x : Inconsistency} (h : d.checkConvention = .error x) :
    x.Holds d := by
  cases hfind : d.callingConvention.find? (· ∉ d.registerFile) with
  | some y =>
      rw [checkConvention, hfind] at h
      cases h
      have hy := List.find?_some hfind
      exact ⟨List.mem_of_find?_eq_some hfind, of_decide_eq_true hy⟩
  | none =>
      rw [checkConvention, hfind] at h
      contradiction

theorem mem_popOrders_iff_exists {name : String} :
    name ∈ d.popOrders ↔ ∃ order, (name, order) ∈ d.popOrders.toList := by
  rw [Std.ExtTreeMap.mem_iff_isSome_getElem?, Option.isSome_iff_exists]
  exact exists_congr fun order => Std.ExtTreeMap.mem_toList_iff_getElem?_eq_some.symm

theorem of_operatorOrders {orders : List (Operator × PopOrder)} (h : d.operatorOrders = .ok orders) :
    ∀ name ∈ d.popOrders, name = "sub" ∨ name = "shl" ∨ name = "lsr" := by
  intro name hname
  rcases mem_popOrders_iff_exists.mp hname with ⟨order, hmem⟩
  rcases exists_of_mapM_eq_ok h _ hmem with ⟨⟨op, order'⟩, hentry⟩
  rcases operatorOrder_eq_ok_iff.mp hentry with ⟨heq, hsensitive⟩
  have hop : name = op.name := congrArg Prod.fst heq
  rw [hop]
  cases op <;> first | contradiction | decide

theorem holds_of_operatorOrders {x : Inconsistency} (h : d.operatorOrders = .error x) :
    x.Holds d := by
  rcases exists_of_mapM_eq_error h with ⟨⟨name, order⟩, hmem, hentry⟩
  have hname : name ∈ d.popOrders := mem_popOrders_iff_exists.mpr ⟨order, hmem⟩
  rw [operatorOrder] at hentry
  cases hop : Operator.ofName? name with
  | none =>
      simp only [hop] at hentry
      cases hentry
      refine ⟨hname, fun op heq => ?_⟩
      rw [Operator.ofName?_eq_some_iff.mpr heq] at hop
      contradiction
  | some op =>
      simp only [hop] at hentry
      by_cases hsensitive : op.isOrderSensitive = true
      · rw [if_pos hsensitive] at hentry
        contradiction
      · rw [if_neg hsensitive] at hentry
        cases hentry
        rw [Operator.ofName?_eq_some_iff.mp hop] at hname
        exact ⟨hname, Bool.eq_false_iff.mpr hsensitive⟩

theorem holds_of_check_entry {e : OpcodeEntry} {x : Inconsistency} (he : e ∈ d.opcodes)
    (hscheme : d.HasArgumentScheme) (h : e.check d.registerFile = .error x) : x.Holds d := by
  simp only [OpcodeEntry.check, ite_error_eq_error_iff, reduceCtorEq, and_false, or_false] at h
  rcases h with ⟨hbytes, rfl⟩ | ⟨_, ⟨hwidth, rfl⟩ | ⟨_, ⟨hholders, rfl⟩ | ⟨_, ⟨hargument, rfl⟩ |
    ⟨_, hfile, rfl⟩⟩⟩⟩
  · exact ⟨e, he, rfl, hbytes⟩
  · refine ⟨e, he, rfl, rfl, fun hfits => ?_⟩
    have hiff := OpcodeEntry.fitsWidth_iff.mp hfits
    tauto
  · exact ⟨e, he, rfl, fun hhas =>
      hholders.2 (decide_eq_true (hhas (Category.needsScratch_iff.mp hholders.1)))⟩
  · -- A single one of the split registers would do for an entry, but is not allowed.
    refine ⟨e, he, rfl, fun hhas => ?_⟩
    have hnone := RegisterFile.argumentBase_eq_absent_iff.mp hargument.2
    have hbase : .varg ∈ d.registerFile ∨ .varg1 ∈ d.registerFile ∨ .varg2 ∈ d.registerFile :=
      hhas hargument.1
    have hone := hasArgumentScheme_iff.mp hscheme
    tauto
  · exact ⟨e, he, rfl, fun hhas => hfile.2 (hhas hfile.1)⟩

/-- A byte that keeps an entry out stands in its byte list and in one before it. -/
theorem two_le_countP {before behind : List OpcodeEntry} {e : OpcodeEntry} {b : UInt8}
    (hfold : before.foldlM (enter file) ∅ = .ok u)
    (hinsert : u.insert e.bytes e.opcode = .error b) :
    2 ≤ (before ++ e :: behind).countP (b ∈ ·.bytes) := by
  have hfind := OpcodeTable.insert_eq_error_iff.mp hinsert
  have hrest : 0 < (e :: behind).countP (b ∈ ·.bytes) :=
    List.countP_pos_iff.mpr
      ⟨e, List.mem_cons_self, decide_eq_true (List.mem_of_find?_eq_some hfind)⟩
  have htaken : u.isTaken b = true := List.find?_some hfind
  have hcount := toNat_isTaken_of_foldlM_enter hfold b
  have hempty : (∅ : OpcodeTable).isTaken b = false := rfl
  rw [htaken, hempty, Bool.toNat_true, Bool.toNat_false] at hcount
  rw [List.countP_append]
  omega

theorem of_table (h : d.table = .ok t) :
    d.opcodes ≠ [] ∧ (∀ e ∈ d.opcodes, e.Coherent d.registers) ∧
      ∀ b, d.opcodes.countP (b ∈ ·.bytes) ≤ 1 := by
  rcases table_eq_ok_iff.mp h with ⟨hfold, hempty⟩
  have hchecks := (of_foldlM_enter hfold OpcodeTable.wellFormed_empty).1
  refine ⟨fun hnil => ?_, fun e he => OpcodeEntry.coherent_of_check (hchecks e he), fun b => ?_⟩
  · rw [OpcodeTable.isEmpty, descriptors_of_foldlM_enter hfold, hnil] at hempty
    contradiction
  · have hle := Bool.toNat_le (t.isTaken b)
    have htaken := toNat_isTaken_of_foldlM_enter hfold b
    omega

theorem holds_of_table {x : Inconsistency} (hscheme : d.HasArgumentScheme)
    (h : d.table = .error x) : x.Holds d := by
  rcases bind_eq_error_iff.mp h with h | ⟨t, hfold, h⟩
  · -- The entries in front of the one at fault were entered.
    rcases exists_of_foldlM_eq_error h with ⟨before, e, behind, u, hd, hfold, h⟩
    rcases bind_eq_error_iff.mp h with h | ⟨_, _, h⟩
    · refine holds_of_check_entry ?_ hscheme h
      rw [hd]
      exact List.mem_append_right before List.mem_cons_self
    · cases hinsert : u.insert e.bytes e.opcode with
      | ok v =>
          rw [hinsert] at h
          contradiction
      | error b =>
          rw [hinsert] at h
          cases h
          rw [Inconsistency.Holds, hd]
          exact two_le_countP hfold hinsert
  · cases hempty : t.isEmpty with
    | false =>
        rw [hempty] at h
        contradiction
    | true =>
        rw [hempty] at h
        cases h
        rw [OpcodeTable.isEmpty, descriptors_of_foldlM_enter hfold] at hempty
        exact List.map_eq_nil_iff.mp (List.isEmpty_iff.mp hempty)

/-- What is accepted is coherent. -/
theorem coherent_of_ofDefinition {r : Revision} (h : Revision.ofDefinition d = .ok r) :
    d.Coherent := by
  rcases Revision.ofDefinition_eq_ok_iff.mp h with ⟨hfile, hconvention, horders, htable, _⟩
  rcases of_check_registerFile hfile with ⟨hvsp, hnodup, hscheme⟩
  rcases of_table htable with ⟨hne, hentries, honce⟩
  exact ⟨hvsp, hnodup, hscheme, of_checkConvention hconvention, of_operatorOrders horders, hne,
    hentries, honce⟩

/-- What is reported as wrong is wrong. -/
theorem holds_of_ofDefinition {x : Inconsistency} (h : Revision.ofDefinition d = .error x) :
    x.Holds d := by
  -- One check after the other, each with those before it passed.
  rcases bind_eq_error_iff.mp h with h | ⟨_, hfile, h⟩
  · exact holds_of_check_registerFile h
  rcases bind_eq_error_iff.mp h with h | ⟨_, _, h⟩
  · exact holds_of_checkConvention h
  rcases bind_eq_error_iff.mp h with h | ⟨_, _, h⟩
  · exact holds_of_operatorOrders h
  rcases bind_eq_error_iff.mp h with h | ⟨_, _, h⟩
  · exact holds_of_table (of_check_registerFile hfile).2.2 h
  · contradiction

/-- A byte means what the only entry says in whose byte list it stands, and nothing if
    it stands in none. -/
theorem lookup?_of_ofDefinition {r : Revision} (h : Revision.ofDefinition d = .ok r) (b : UInt8) :
    (∃ before e behind, d.opcodes = before ++ e :: behind ∧ b ∈ e.bytes ∧
        (∀ f ∈ before ++ behind, b ∉ f.bytes) ∧ r.opcodes.lookup? b = some e.opcode) ∨
      ((∀ e ∈ d.opcodes, b ∉ e.bytes) ∧ r.opcodes.lookup? b = none) := by
  rw [Revision.lookup?_eq_entryOf? h, entryOf?]
  cases hfind : d.opcodes.find? (b ∈ ·.bytes) with
  | none =>
      refine Or.inr ⟨fun e he hb => ?_, rfl⟩
      exact List.find?_eq_none.mp hfind e he (decide_eq_true hb)
  | some e =>
      have hb := List.find?_some hfind
      rcases List.append_of_mem (List.mem_of_find?_eq_some hfind) with ⟨before, behind, hd⟩
      refine Or.inl ⟨before, e, behind, hd, of_decide_eq_true hb, fun f hf hbf => ?_, rfl⟩
      -- With a second entry the byte would be counted twice.
      have honce := (coherent_of_ofDefinition h).bytes_once b
      have hother : 0 < (before ++ behind).countP (b ∈ ·.bytes) :=
        List.countP_pos_iff.mpr ⟨f, hf, decide_eq_true hbf⟩
      rw [hd, List.perm_middle.countP_eq, List.countP_cons, if_pos hb] at honce
      omega

/-- A definition describes a revision if and only if it is coherent. In the revision a
    byte means what the only entry says in whose byte list it stands, and all other
    bytes mean nothing. An error gives the name of the definition and something that is
    wrong with it. -/
theorem revision_iff_coherent (d : Definition) :
    ((∃ r, d.revision = .ok r) ↔ d.Coherent) ∧
      match d.revision with
      | .ok r => ∀ b,
          (∃ before e behind, d.opcodes = before ++ e :: behind ∧ b ∈ e.bytes ∧
            (∀ f ∈ before ++ behind, b ∉ f.bytes) ∧ r.opcodes.lookup? b = some e.opcode) ∨
          ((∀ e ∈ d.opcodes, b ∉ e.bytes) ∧ r.opcodes.lookup? b = none)
      | .error e => ∃ x, e = .inconsistent d.name x ∧ x.Holds d := by
  rw [revision]
  cases h : Revision.ofDefinition d with
  | ok r =>
      refine ⟨⟨fun _ => coherent_of_ofDefinition h, fun _ => ⟨r, rfl⟩⟩, ?_⟩
      exact lookup?_of_ofDefinition h
  | error x =>
      have hx := holds_of_ofDefinition h
      refine ⟨⟨fun hok => ?_, fun hd => absurd hx (hd.not_holds x)⟩, x, rfl, hx⟩
      rcases hok with ⟨r, hr⟩
      contradiction

end Definition

end StackLift
