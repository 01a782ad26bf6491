import StackLift.Proofs.Json.Decoder
import StackLift.Proofs.Map
import StackLift.Revision.Json

/-!
# Definitions There and Back

A definition that is written to a file is the definition that is read from it.

Every part of a definition has a writer and a reader, and they have to agree on it: names
of forms on the one side are names of the same forms on the other, registers go through a
reader that takes letters of any case, widths through a byte that could be any number, and
pop orders through a list of members of which the last one under a name would count. What
the reader supplies where a part is missing plays no role, since the writer leaves nothing
out. None of this asks whether the definition makes sense, so one that does not is turned
down after reading for the same reason as before.

## Theorems

* `reads_toJson`: Each part is read as what it was written for.
* `fits_toJson`: The numbers of a definition are words.
* `run_write_toJson`: A definition is read from a document as it was written.
-/

namespace StackLift

open Json (Decoder Fits Layout)

theorem Operator.reads_toJson (op : Operator) : Operator.decoder.Reads 0 op.toJson op :=
  Json.Decoder.reads_unit (by cases op <;> rfl)

theorem Register.reads_toJson (r : Register) : Register.decoder.Reads 0 r.toJson r :=
  Json.Decoder.reads_parsed r.ofName?_name _

theorem AddressBase.reads_toJson (b : AddressBase) : AddressBase.decoder.Reads 0 b.toJson b :=
  Json.Decoder.reads_unit (by cases b <;> rfl)

theorem BranchMode.reads_toJson (m : BranchMode) : BranchMode.decoder.Reads 0 m.toJson m :=
  Json.Decoder.reads_unit (by cases m <;> rfl)

theorem PopOrder.reads_toJson (o : PopOrder) : PopOrder.decoder.Reads 0 o.toJson o :=
  Json.Decoder.reads_unit (by cases o <;> rfl)

theorem OperandWidth.reads_toJson (w : OperandWidth) : OperandWidth.decoder.Reads 0 w.toJson w := by
  intro levels _
  cases w <;> rfl

theorem Category.reads_toJson (c : Category) : Category.decoder.Reads 1 c.toJson c := by
  cases c with
  | nop => exact (Json.Decoder.reads_unit rfl).mono (Nat.zero_le 1)
  | stackPush => exact (Json.Decoder.reads_unit rfl).mono (Nat.zero_le 1)
  | stackBinaryOp op =>
      exact Json.Decoder.reads_newtype rfl (op.reads_toJson.map Category.stackBinaryOp)
  | memoryRead => exact (Json.Decoder.reads_unit rfl).mono (Nat.zero_le 1)
  | memoryWrite => exact (Json.Decoder.reads_unit rfl).mono (Nat.zero_le 1)
  | registerRelativeAddress base =>
      exact Json.Decoder.reads_newtype rfl (base.reads_toJson.map Category.registerRelativeAddress)
  | unconditionalBranch => exact (Json.Decoder.reads_unit rfl).mono (Nat.zero_le 1)
  | ret => exact (Json.Decoder.reads_unit rfl).mono (Nat.zero_le 1)

theorem OpcodeEntry.reads_toJson (e : OpcodeEntry) : OpcodeEntry.decoder.Reads 2 e.toJson e := by
  have hbytes : (Decoder.list .byte).Reads 1 (.list .byte e.bytes) e.bytes :=
    Json.Decoder.reads_list fun b _ => Json.Decoder.reads_byte b
  have hmnemonic := (Json.Decoder.reads_text e.opcode.mnemonic).mono (Nat.zero_le 1)
  have hwidth := e.opcode.width.reads_toJson.mono (Nat.zero_le 1)
  have hcategory := e.opcode.category.reads_toJson
  -- Four members for four parts, each of which is new to the draft.
  refine Json.Shape.reads_object (.cons rfl rfl hbytes <| .cons rfl rfl hmnemonic <|
    .cons rfl rfl hwidth <| .cons rfl rfl hcategory <| .nil _) ?_
  rfl

/-- Of the names under which pop orders are written no two are the same, so it does not
    matter that the last one would count. -/
theorem reads_popOrders (orders : PopOrders) :
    DefinitionDraft.popOrdersDecoder.Reads 1
      (.object (orders.toList.map fun e => (e.1, e.2.toJson))) orders := by
  have hmap : (Decoder.map PopOrder.decoder).Reads 1
      (.object (orders.toList.map fun e => (e.1, e.2.toJson))) orders.toList :=
    Json.Decoder.reads_map fun e _ => e.2.reads_toJson
  have horders := hmap.map fun es => (Std.ExtTreeMap.ofList es : PopOrders)
  rw [ofList_toList] at horders
  exact horders

theorem Definition.reads_toJson (d : Definition) : Definition.decoder.Reads 4 d.toJson d := by
  have hname := (Json.Decoder.reads_text d.name).mono (Nat.zero_le 3)
  have hmode := d.branchMode.reads_toJson.mono (Nat.zero_le 3)
  have hregisters : (Decoder.list Register.decoder).Reads 3 (.list Register.toJson d.registers)
      d.registers :=
    (Json.Decoder.reads_list fun r _ => r.reads_toJson).mono (by decide)
  have hconvention : (Decoder.list Register.decoder).Reads 3
      (.list Register.toJson d.callingConvention) d.callingConvention :=
    (Json.Decoder.reads_list fun r _ => r.reads_toJson).mono (by decide)
  have horders := (reads_popOrders d.popOrders).mono (Nat.le_add_left 1 2)
  have hopcodes : (Decoder.list OpcodeEntry.decoder).Reads 3
      (.list OpcodeEntry.toJson d.opcodes) d.opcodes :=
    Json.Decoder.reads_list fun e _ => e.reads_toJson
  -- Nothing is left out, so no default comes in when the draft is finished.
  refine Json.Shape.reads_object (.cons rfl rfl hname <| .cons rfl rfl hmode <|
    .cons rfl rfl hregisters <| .cons rfl rfl hconvention <| .cons rfl rfl horders <|
    .cons rfl rfl hopcodes <| .nil _) ?_
  rfl

theorem OpcodeEntry.fits_toJson (e : OpcodeEntry) : e.toJson.Fits := by
  have hbytes : (Json.list .byte e.bytes).Fits := .list fun b _ => .byte b
  have hwidth : e.opcode.width.toJson.Fits := by
    cases h : e.opcode.width <;> exact .number (by decide)
  have hcategory : e.opcode.category.toJson.Fits := by
    cases h : e.opcode.category with
    | stackBinaryOp op => exact .tagged (.string _) _
    | registerRelativeAddress base => exact .tagged (.string _) _
    | _ => exact .string _
  refine .object ?_
  simp only [Opcode.members, List.forall_mem_cons]
  exact ⟨hbytes, .string _, hwidth, hcategory, fun m hm => absurd hm List.not_mem_nil⟩

theorem Definition.fits_toJson (d : Definition) : d.toJson.Fits := by
  have hregisters (rs : List Register) : (Json.list Register.toJson rs).Fits :=
    .list fun r _ => .string r.name
  have horders : (Json.object (d.popOrders.toList.map fun e => (e.1, e.2.toJson))).Fits :=
    .object (List.forall_mem_map.mpr fun e _ => .string e.2.name)
  have hopcodes : (Json.list OpcodeEntry.toJson d.opcodes).Fits :=
    .list fun e _ => e.fits_toJson
  refine .object ?_
  simp only [List.forall_mem_cons]
  exact ⟨.string _, .string _, hregisters _, hregisters _, horders, hopcodes,
    fun m hm => absurd hm List.not_mem_nil⟩

/-- A definition survives JSON. Whatever it says, and whatever the blanks between the marks,
    the definition that is read from its text is the definition that was written, and it
    describes the same revision, or has the same thing wrong with it. -/
theorem Definition.run_write_toJson (d : Definition) (l : Layout) :
    let read := Definition.decoder.run (.ofText (d.toJson.write l))
    read = .ok d ∧ read.map Revision.ofDefinition = .ok (Revision.ofDefinition d) := by
  intro read
  have hread : read = .ok d :=
    Json.Decoder.run_write d.reads_toJson (by decide) d.fits_toJson l
  refine ⟨hread, ?_⟩
  rw [hread]
  rfl

end StackLift
