import Mathlib.Data.Finset.Basic
import Mathlib.Data.Finset.Dedup
import Mathlib.Tactic.Tauto
import StackLift.Listing.Scan
import StackLift.Proofs.Instruction.Reading
import StackLift.Proofs.Listing.Walk

/-!
# Definitions in Another Order

The order in which a definition lists things is of no consequence.

The checks stop at the first thing that is wrong, and the table numbers the opcodes in the
order in which they come. So for the same definition in another order another error may be
reported, and the table is another one. Whether a definition is accepted does not depend on
the order all the same, because the accepted definitions are the coherent ones and being
coherent is said without any order. And what the revision does depends on the table only
through what a byte means and through the greatest length. The numbers do not show in either.

What a revision does is compared by way of `Revision.Alike`, which has a part for each thing
that decoder, renderer and lifter ask of a revision.

## Main definitions

* `OpcodeEntry.unordered`: An entry without the order and the repetitions of its bytes.
* `Definition.Reordered`: The same definition in another order.
* `Revision.Alike`: Two revisions give the same answers to whoever asks.

## Theorems

* `Definition.Reordered.coherent`: Being coherent does not depend on the order.
* `Alike.decode_eq`, `Alike.liftAt_eq`: Instructions are decoded and lifted alike.
* `Alike.listing_eq`, `Alike.scan_eq`: So are listings and scans.
* `alike_of_reordered`: The order of a definition does not show in the revision.
* `ofDefinition_reordered`: Both definitions are accepted or neither, and all readings agree.
-/

namespace StackLift

/-- An entry without the order of its bytes and without their repetitions. -/
def OpcodeEntry.unordered (e : OpcodeEntry) : Opcode × Finset UInt8 := (e.opcode, e.bytes.toFinset)

theorem OpcodeEntry.mem_bytes_iff {e f : OpcodeEntry} (h : e.unordered = f.unordered) (b : UInt8) :
    b ∈ e.bytes ↔ b ∈ f.bytes := by
  have hbytes : e.bytes.toFinset = f.bytes.toFinset := congrArg Prod.snd h
  rw [← List.mem_toFinset, hbytes, List.mem_toFinset]

/-- A coherent entry is coherent with any list of its bytes and any list of the registers. -/
theorem OpcodeEntry.Coherent.of_unordered {e f : OpcodeEntry} {registers registers' : List Register}
    (he : e.Coherent registers) (h : e.unordered = f.unordered)
    (hregisters : ∀ x, x ∈ registers' ↔ x ∈ registers) : f.Coherent registers' := by
  have hopcode : e.opcode = f.opcode := congrArg Prod.fst h
  rcases he with ⟨hbytes, hwidth, hholders, hargument, hfile⟩
  refine ⟨?_, ?_, ?_, ?_, ?_⟩
  · rcases List.exists_mem_of_ne_nil _ hbytes with ⟨b, hb⟩
    exact List.ne_nil_of_mem ((mem_bytes_iff h b).mp hb)
  · rwa [FitsWidth, ← hopcode]
  · rwa [HasHolders, ← hopcode, hregisters, hregisters]
  · rwa [HasArgument, ← hopcode, hregisters, hregisters, hregisters]
  · rwa [HasRegisterFile, ← hopcode, hregisters]

namespace Definition

/-- The same definition in another order: of the entries, of the bytes of an entry, which may
    also be repeated there, of the registers and of the calling convention. -/
structure Reordered (d d' : Definition) : Prop where
  name : d'.name = d.name
  branchMode : d'.branchMode = d.branchMode
  registers : d'.registers.Perm d.registers
  callingConvention : d'.callingConvention.Perm d.callingConvention
  popOrders : d'.popOrders = d.popOrders
  opcodes : (d'.opcodes.map OpcodeEntry.unordered).Perm (d.opcodes.map OpcodeEntry.unordered)

variable {d d' : Definition}

theorem Reordered.symm (h : d.Reordered d') : d'.Reordered d where
  name := h.name.symm
  branchMode := h.branchMode.symm
  registers := h.registers.symm
  callingConvention := h.callingConvention.symm
  popOrders := h.popOrders.symm
  opcodes := h.opcodes.symm

theorem Reordered.exists_entry (h : d.Reordered d') {f : OpcodeEntry} (hf : f ∈ d'.opcodes) :
    ∃ e ∈ d.opcodes, e.unordered = f.unordered :=
  List.mem_map.mp (h.opcodes.mem_iff.mp (List.mem_map_of_mem hf))

/-- A definition is coherent in every order. -/
theorem Reordered.coherent (h : d.Reordered d') (hd : d.Coherent) : d'.Coherent where
  stackPointer := h.registers.mem_iff.mpr hd.stackPointer
  nodup_registers := h.registers.nodup_iff.mpr hd.nodup_registers
  argumentScheme := by
    have hscheme := hd.argumentScheme
    simp only [HasArgumentScheme, h.registers.mem_iff] at hscheme ⊢
    exact hscheme
  convention := by
    intro x hx
    exact h.registers.mem_iff.mpr (hd.convention x (h.callingConvention.mem_iff.mp hx))
  popOrders := by
    rw [h.popOrders]
    exact hd.popOrders
  opcodes_ne_nil := by
    intro hnil
    have hlength := h.opcodes.length_eq
    rw [hnil, List.length_map, List.length_map] at hlength
    exact hd.opcodes_ne_nil (List.eq_nil_of_length_eq_zero hlength.symm)
  entries := by
    intro f hf
    rcases h.exists_entry hf with ⟨e, he, heq⟩
    exact (hd.entries e he).of_unordered heq fun x => h.registers.mem_iff
  bytes_once := by
    intro b
    -- How many entries have a byte can be counted without order and repetitions.
    have hcount (es : List OpcodeEntry) : es.countP (b ∈ ·.bytes) =
        (es.map OpcodeEntry.unordered).countP (b ∈ ·.2) := by
      rw [List.countP_map]
      refine List.countP_congr fun e _ => ?_
      simp only [Function.comp_apply, OpcodeEntry.unordered, List.mem_toFinset]
    rw [hcount, h.opcodes.countP_eq, ← hcount]
    exact hd.bytes_once b

theorem exists_revision_iff_coherent :
    (∃ r, Revision.ofDefinition d = .ok r) ↔ d.Coherent := by
  constructor
  · intro h
    rcases h with ⟨r, hr⟩
    exact coherent_of_ofDefinition hr
  · intro hd
    cases h : Revision.ofDefinition d with
    | ok r => exact ⟨r, rfl⟩
    | error x => exact absurd (holds_of_ofDefinition h) (hd.not_holds x)

end Definition

namespace Revision

variable {d d' : Definition} {r s : Revision} {m : Image}

/-- Whatever is asked of the one revision, the other gives the same answer. -/
structure Alike (r s : Revision) : Prop where
  lookup? : ∀ b, s.opcodes.lookup? b = r.opcodes.lookup? b
  maxLength : s.maxLength = r.maxLength
  branchMode : s.branchMode = r.branchMode
  popOrder : ∀ op, s.popOrder op = r.popOrder op
  argumentBase : s.registers.argumentBase = r.registers.argumentBase

namespace Alike

variable (h : r.Alike s)
include h

theorem decode_eq (address : UInt64) (window : List UInt8) :
    s.decode address window = r.decode address window := by
  cases window with
  | nil => rfl
  | cons byte rest => simp only [decode, h.lookup?]

theorem branchTarget?_eq (i : Instruction) : s.branchTarget? i = r.branchTarget? i := by
  simp only [branchTarget?, h.branchMode]

theorem references_eq (i : Instruction) : s.references i = r.references i := by
  simp only [references, h.branchTarget?_eq]

theorem flowAt_eq (address : UInt64) (window : List UInt8) :
    s.flowAt address window = r.flowAt address window := by
  simp only [flowAt, h.decode_eq, h.references_eq]

theorem textAt_eq (address : UInt64) (window : List UInt8) :
    s.textAt address window = r.textAt address window := by
  simp only [textAt, h.decode_eq]

section Sink

variable {μ : Type → Type} {ε : Type} [Monad μ] [Sink μ ε]

theorem lift_eq (i : Instruction) : (s.lift i : μ Unit) = r.lift i := by
  have hbase (base : AddressBase) (operand : UInt64) :
      s.baseRegister base operand = r.baseRegister base operand := by
    simp only [baseRegister, h.argumentBase]
  have hholders (op : Operator) : s.holders op = r.holders op := by
    simp only [holders, h.popOrder]
  simp only [lift, hbase, hholders, h.branchTarget?_eq]

/-- Instructions are lifted alike into every sink. -/
theorem liftAt_eq (address : UInt64) (window : List UInt8) :
    (s.liftAt address window : μ (Except DecodeError Nat)) = r.liftAt address window := by
  simp only [liftAt, h.decode_eq, h.lift_eq]

end Sink

theorem walk {a : UInt64} {run : Run} (hw : Walk r m a run) : Walk s m a run := by
  have hdecode (a : UInt64) : s.decodeAt m a = r.decodeAt m a := by
    rw [decodeAt, decodeAt, h.maxLength, h.decode_eq]
  induction hw with
  | stop hi => exact .stop ((hdecode _).trans hi)
  | last hi hs => exact .last ((hdecode _).trans hi) hs
  | step hi hs _ ih => exact .step ((hdecode _).trans hi) hs ih

theorem listing_eq (a : UInt64) : s.listing m a = r.listing m a := by
  have hrun := (walk_straightLine s m a).eq_of_walk (h.walk (walk_straightLine r m a))
  have hreferences : s.references = r.references := funext h.references_eq
  rw [listing, hrun, listing, Listing.ofRun, hreferences]
  rfl

/-- Scans find the same listings. They work off the same addresses in the same order. -/
theorem scan_eq (entries : List UInt64) : s.scan m entries = r.scan m entries := by
  have hfrom (found : Listings) (f : Frontier) : s.scanFrom m found f = r.scanFrom m found f := by
    induction found, f using scanFrom.induct (r := r) (m := m) with
    | case1 found f hnil =>
        rcases f with ⟨queued, waiting⟩
        subst hnil
        unfold scanFrom
        rfl
    | case2 found f a rest hcons l ih =>
        rcases f with ⟨queued, waiting⟩
        subst hcons
        unfold scanFrom
        simp only [h.listing_eq]
        exact ih
  exact hfrom ∅ (.ofEntries entries)

end Alike

/-- The longest instruction depends on which opcodes there are, not on their order. -/
theorem maxLength_eq_of_mem_iff
    (h : ∀ o, o ∈ s.opcodes.descriptors ↔ o ∈ r.opcodes.descriptors) :
    s.maxLength = r.maxLength := by
  have hmax : (s.opcodes.descriptors.map Opcode.length).max? =
      (r.opcodes.descriptors.map Opcode.length).max? := by
    refine Option.ext fun n => ?_
    simp only [List.max?_eq_some_iff, List.mem_map, h]
  rw [maxLength, hmax, maxLength]

theorem mem_descriptors_iff (hr : ofDefinition d = .ok r) (o : Opcode) :
    o ∈ r.opcodes.descriptors ↔ ∃ e ∈ d.opcodes, e.opcode = o := by
  have htable := (ofDefinition_eq_ok_iff.mp hr).2.2.2.1
  have hfold := (Definition.table_eq_ok_iff.mp htable).1
  rw [Definition.descriptors_of_foldlM_enter hfold]
  exact List.mem_map

section Accepted

variable (h : d.Reordered d') (hr : ofDefinition d = .ok r) (hs : ofDefinition d' = .ok s)
include h hr hs

theorem lookup?_of_reordered (b : UInt8) : s.opcodes.lookup? b = r.opcodes.lookup? b := by
  by_cases hb : ∃ e ∈ d.opcodes, b ∈ e.bytes
  · rcases hb with ⟨e, he, hb⟩
    rcases h.symm.exists_entry he with ⟨f, hf, heq⟩
    rw [lookup?_of_mem_entry hr he hb,
      lookup?_of_mem_entry hs hf ((OpcodeEntry.mem_bytes_iff heq b).mpr hb)]
    exact congrArg (some ·.1) heq
  · -- A byte of a reordered entry would be one of the entry itself.
    have hnone : ∀ f ∈ d'.opcodes, b ∉ f.bytes := by
      intro f hf hbf
      rcases h.exists_entry hf with ⟨e, he, heq⟩
      exact hb ⟨e, he, (OpcodeEntry.mem_bytes_iff heq b).mpr hbf⟩
    rw [lookup?_eq_none_of_forall hs hnone]
    exact (lookup?_eq_none_of_forall hr fun e he hbe => hb ⟨e, he, hbe⟩).symm

/-- The order in which a definition lists things does not show in the revision. -/
theorem alike_of_reordered : r.Alike s := by
  have hr' := ofDefinition_eq_ok_iff.mp hr
  have hs' := ofDefinition_eq_ok_iff.mp hs
  refine ⟨lookup?_of_reordered h hr hs, maxLength_eq_of_mem_iff fun o => ?_, ?_, fun op => ?_, ?_⟩
  · rw [mem_descriptors_iff hr, mem_descriptors_iff hs]
    constructor
    · intro hparts
      rcases hparts with ⟨f, hf, rfl⟩
      rcases h.exists_entry hf with ⟨e, he, heq⟩
      exact ⟨e, he, congrArg Prod.fst heq⟩
    · intro hparts
      rcases hparts with ⟨e, he, rfl⟩
      rcases h.symm.exists_entry he with ⟨f, hf, heq⟩
      exact ⟨f, hf, congrArg Prod.fst heq⟩
  · rw [branchMode_eq_definition hs, branchMode_eq_definition hr, h.branchMode]
  · -- Both revisions take the pop orders from the same map.
    have horders : s.popOrders = r.popOrders := by
      have hsorders := hs'.2.2.1
      rw [Definition.operatorOrders, h.popOrders] at hsorders
      exact Except.ok.inj (hsorders.symm.trans hr'.2.2.1)
    rw [popOrder, popOrder, horders]
  · have hmem (x : Register) : x ∈ d'.registerFile ↔ x ∈ d.registerFile := h.registers.mem_iff
    rw [registers_eq_definition hs, registers_eq_definition hr, RegisterFile.argumentBase,
      RegisterFile.argumentBase]
    simp only [hmem]

end Accepted

/-- A definition in another order is accepted just if the definition is. The revisions that
    the two describe then read every window in the same way, for the flow of control, for the
    text and for the code, and so a scan of an image finds the same. -/
theorem ofDefinition_reordered (h : d.Reordered d') :
    ((∃ r, ofDefinition d = .ok r) ↔ ∃ s, ofDefinition d' = .ok s) ∧
      ∀ r s, ofDefinition d = .ok r → ofDefinition d' = .ok s →
        s.maxLength = r.maxLength ∧
        (∀ address window, s.flowAt address window = r.flowAt address window ∧
          s.textAt address window = r.textAt address window ∧
          ∀ (μ : Type → Type) (ε : Type) [Monad μ] [Sink μ ε],
            (s.liftAt address window : μ (Except DecodeError Nat)) = r.liftAt address window) ∧
        ∀ m entries, s.scan m entries = r.scan m entries := by
  constructor
  · rw [Definition.exists_revision_iff_coherent, Definition.exists_revision_iff_coherent]
    exact ⟨h.coherent, h.symm.coherent⟩
  · intro r s hr hs
    have halike := alike_of_reordered h hr hs
    refine ⟨halike.maxLength, fun address window => ⟨?_, ?_, ?_⟩, fun m => halike.scan_eq⟩
    · exact halike.flowAt_eq address window
    · exact halike.textAt_eq address window
    · intro μ ε _ _
      exact halike.liftAt_eq address window

/-- A definition written down from back to front, with all bytes listed twice. -/
theorem ofDefinition_reordered_reverse :
    let d := BuiltinRevision.tigress3.definition
    let d' := { d with
      registers := d.registers.reverse
      callingConvention := d.callingConvention.reverse
      opcodes := (d.opcodes.map fun e => { e with bytes := e.bytes.reverse ++ e.bytes }).reverse }
    d.Reordered d' ∧ ∃ r s, ofDefinition d = .ok r ∧ ofDefinition d' = .ok s ∧
      s.maxLength = r.maxLength ∧
      (∀ address window, s.flowAt address window = r.flowAt address window ∧
        s.textAt address window = r.textAt address window ∧
        ∀ (μ : Type → Type) (ε : Type) [Monad μ] [Sink μ ε],
          (s.liftAt address window : μ (Except DecodeError Nat)) = r.liftAt address window) ∧
      ∀ m entries, s.scan m entries = r.scan m entries := by
  intro d d'
  have hopcodes : (d'.opcodes.map OpcodeEntry.unordered).Perm
      (d.opcodes.map OpcodeEntry.unordered) := by
    rw [List.map_reverse, List.map_map]
    refine (List.reverse_perm _).trans (List.Perm.of_eq (List.map_congr_left fun e _ => ?_))
    simp only [Function.comp_apply, OpcodeEntry.unordered, List.toFinset_append,
      List.toFinset_reverse, Finset.union_self]
  have h : d.Reordered d' :=
    ⟨rfl, rfl, List.reverse_perm _, List.reverse_perm _, rfl, hopcodes⟩
  rcases BuiltinRevision.exists_revision .tigress3 with ⟨r, hr⟩
  rcases (ofDefinition_reordered h).1.mp ⟨r, hr⟩ with ⟨s, hs⟩
  exact ⟨h, r, s, hr, hs, (ofDefinition_reordered h).2 r s hr hs⟩

end Revision

end StackLift
