import StackLift.Listing.Basic
import StackLift.Proofs.Image
import StackLift.Proofs.Instruction.Decode

/-!
# Decoding in an Image

Where in an image there is an instruction.

A decoder is shown no more bytes than the longest instruction has, so a window may
be short for two reasons: because it has reached its limit, or because the image
ends. Only the second can cut an instruction off. The bytes of an instruction are
therefore those of the image, and whether there is one at an address can be said
without a window.

## Main definitions

* `Undecodable`: There is no instruction at an address.

## Theorems

* `length_le_maxLength`: No instruction is longer than the longest.
* `retrieve?_of_decodeAt`: The bytes of an instruction are those of the image.
* `decodeAt_eq_ok_iff`, `decodeAt_eq_unrecognized_iff`: What is decoded, and where no opcode
  is recognized, by the bytes of the image.
* `undecodable_iff`: Decoding fails just where there is no instruction.
* `exists_truncated_of_retrieve?`: Where an instruction is cut short.
-/

namespace StackLift

namespace Revision

variable {r : Revision} {m : Image} {a : UInt64} {i : Instruction} {o : Opcode} {byte : UInt8}

theorem length_le_maxLength (h : r.opcodes.lookup? byte = some o) : o.length ≤ r.maxLength := by
  rcases Option.bind_eq_some_iff.mp h with ⟨n, _, hn⟩
  have hmem : o.length ∈ r.opcodes.descriptors.map Opcode.length :=
    List.mem_map_of_mem (List.mem_of_getElem? hn)
  unfold maxLength
  cases hmax : (r.opcodes.descriptors.map Opcode.length).max? with
  | none =>
      rw [List.max?_eq_none_iff] at hmax
      rw [hmax] at hmem
      contradiction
  | some k =>
      rw [Option.getD_some]
      exact (List.max?_eq_some_iff.mp hmax).2 _ hmem

theorem maxLength_pos (r : Revision) : 0 < r.maxLength := by
  unfold maxLength
  cases hmax : (r.opcodes.descriptors.map Opcode.length).max? with
  | none => exact Nat.one_pos
  | some k =>
      rcases List.mem_map.mp (List.max?_eq_some_iff.mp hmax).1 with ⟨o, _, rfl⟩
      exact o.length_pos

theorem address_of_decodeAt (hi : r.decodeAt m a = .ok i) : i.address = a := address_of_decode hi

/-- The bytes of a decoded instruction are those of the image at its address. -/
theorem retrieve?_of_decodeAt (hi : r.decodeAt m a = .ok i) :
    m.retrieve? a i.length = some i.encoding := by
  rw [encoding_of_decode hi]
  exact Image.retrieve?_of_le_window i.opcode.length_pos (length_le_of_decode hi)

/-- An instruction is decoded where the image has its bytes, the first of which stands for
    its opcode. -/
theorem decodeAt_eq_ok_iff :
    r.decodeAt m a = .ok i ↔ i.address = a ∧ r.opcodes.lookup? i.byte = some i.opcode ∧
      m.retrieve? a i.length = some i.encoding := by
  constructor
  · intro hi
    have hbytes := retrieve?_of_decodeAt hi
    rcases decode_eq_ok_iff.mp hi with ⟨byte, rest, o, _, ho, _, rfl⟩
    exact ⟨rfl, ho, hbytes⟩
  · intro hparts
    rcases hparts with ⟨haddress, ho, hbytes⟩
    have hlength : i.length = i.opcode.width.bytes + 1 := Nat.add_comm _ _
    have htake := Image.take_window_of_retrieve? hbytes (length_le_maxLength ho)
    have hcount := Image.length_of_retrieve? hbytes
    cases hw : m.window a r.maxLength with
    | nil =>
        rw [hw, List.take_nil] at htake
        contradiction
    | cons byte rest =>
        rw [hw, hlength, List.take_succ_cons, Instruction.encoding, List.cons.injEq] at htake
        rcases htake with ⟨hbyte, himmediate⟩
        rw [Instruction.encoding, List.length_cons, ← himmediate, List.length_take] at hcount
        refine decode_eq_ok_iff.mpr ⟨byte, rest, i.opcode, hw, hbyte ▸ ho, by omega, ?_⟩
        rw [himmediate, hbyte, ← haddress]

/-- An instruction of a definition is decoded where the image has its bytes. -/
theorem decodeAt_of_entryOf? {d : Definition} (hr : ofDefinition d = .ok r)
    (ho : (d.entryOf? i.byte).map OpcodeEntry.opcode = some i.opcode)
    (hbytes : m.retrieve? i.address i.length = some i.encoding) : r.decodeAt m i.address = .ok i :=
  decodeAt_eq_ok_iff.mpr ⟨rfl, (lookup?_eq_entryOf? hr i.byte).trans ho, hbytes⟩

/-- No opcode is recognized where the image has a byte that stands for none. -/
theorem decodeAt_eq_unrecognized_iff {x : UInt64} :
    r.decodeAt m a = .error (.unrecognized byte x) ↔ x = a ∧ r.opcodes.lookup? byte = none ∧
      m.retrieve? a 1 = some [byte] := by
  constructor
  · intro he
    cases hw : m.window a r.maxLength with
    | nil =>
        rw [decodeAt, hw] at he
        cases he
    | cons b rest =>
        have hone : 1 ≤ (m.window a r.maxLength).length := by
          rw [hw]
          exact Nat.succ_pos _
        cases ho : r.opcodes.lookup? b with
        | none =>
            simp only [decodeAt, hw, decode, ho] at he
            cases he
            refine ⟨rfl, ho, ?_⟩
            rw [Image.retrieve?_of_le_window Nat.one_pos hone, hw]
            rfl
        | some o =>
            simp only [decodeAt, hw, decode, ho] at he
            split at he <;> cases he
  · intro hparts
    rcases hparts with ⟨rfl, ho, hbyte⟩
    have htake := Image.take_window_of_retrieve? hbyte r.maxLength_pos
    cases hw : m.window x r.maxLength with
    | nil =>
        rw [hw, List.take_nil] at htake
        contradiction
    | cons b rest =>
        rw [hw, List.take_succ_cons, List.take_zero, List.cons.injEq] at htake
        rw [decodeAt, hw, htake.1]
        simp only [decode, ho]

/-- There is no instruction at an address: it lies outside the image, or its byte
    stands for no opcode, or the image ends before the instruction does. -/
def Undecodable (r : Revision) (m : Image) (a : UInt64) : Prop :=
  m.contains a = false ∨ ∃ byte, m.retrieve? a 1 = some [byte] ∧
    match r.opcodes.lookup? byte with
    | none => True
    | some o => m.retrieve? a o.length = none

theorem undecodable_of_error {e : DecodeError} (he : r.decodeAt m a = .error e) :
    r.Undecodable m a := by
  cases ho : m.offset? a with
  | none =>
      left
      rw [Image.contains, ho]
      rfl
  | some p =>
      right
      have hlt := Image.offset?_lt ho
      have hlen : (m.window a r.maxLength).length = min r.maxLength (m.size - p) :=
        Image.length_window ho
      have hpos := r.maxLength_pos
      have hone : 1 ≤ (m.window a r.maxLength).length := by omega
      unfold decodeAt at he
      cases hw : m.window a r.maxLength with
      | nil =>
          -- An address in the image has a byte, and a window shows at least one.
          rw [hw, List.length_nil] at hlen
          omega
      | cons byte rest =>
          refine ⟨byte, ?_, ?_⟩
          · rw [Image.retrieve?_of_le_window Nat.one_pos hone, hw]
            rfl
          · rw [hw, List.length_cons] at hlen
            cases hb : r.opcodes.lookup? byte with
            | none => trivial
            | some o =>
                -- The window is short of the instruction, so the image is.
                have hmax := length_le_maxLength hb
                have hshort : rest.length < o.width.bytes := by
                  by_contra hc
                  rw [hw, decode, hb] at he
                  simp only [if_neg hc] at he
                  contradiction
                have hlength : o.length = 1 + o.width.bytes := rfl
                refine Option.eq_none_iff_forall_ne_some.mpr ?_
                intro xs hxs
                rcases Image.retrieve?_eq_some_iff.mp hxs with ⟨p', ho', hle, _⟩
                cases ho.symm.trans ho'
                omega

/-- Decoding fails just where there is no instruction. -/
theorem undecodable_iff : r.Undecodable m a ↔ ∃ e, r.decodeAt m a = .error e := by
  constructor
  · intro h
    cases hi : r.decodeAt m a with
    | error e => exact ⟨e, rfl⟩
    | ok i =>
        have hbytes := retrieve?_of_decodeAt hi
        rcases decode_eq_ok_iff.mp hi with ⟨byte, rest, o, hw, hb, _, rfl⟩
        have hfirst : m.retrieve? a 1 = some [byte] := by
          have hone : 1 ≤ (m.window a r.maxLength).length := by
            rw [hw]
            exact Nat.succ_pos _
          rw [Image.retrieve?_of_le_window Nat.one_pos hone, hw]
          rfl
        -- What was decoded has a first byte, an opcode and all its bytes.
        rcases h with hout | ⟨byte', hbyte, hnone⟩
        · rcases Image.retrieve?_eq_some_iff.mp hfirst with ⟨p, ho, _⟩
          rw [Image.contains, ho] at hout
          contradiction
        · rw [hfirst, Option.some.injEq, List.cons.injEq] at hbyte
          rw [← hbyte.1, hb] at hnone
          exact absurd (hbytes.symm.trans hnone) (by simp only [reduceCtorEq, not_false_eq_true])
  · intro hparts
    rcases hparts with ⟨e, he⟩
    exact undecodable_of_error he

/-- An instruction is cut short where the image has its first byte but not all of them. -/
theorem exists_truncated_of_retrieve? (ho : r.opcodes.lookup? byte = some o)
    (hbyte : m.retrieve? a 1 = some [byte]) (hshort : m.retrieve? a o.length = none) :
    ∃ x needed available, r.decodeAt m a = .error (.truncated x needed available) := by
  have hundecodable : r.Undecodable m a := by
    refine Or.inr ⟨byte, hbyte, ?_⟩
    rw [ho]
    exact hshort
  rcases undecodable_iff.mp hundecodable with ⟨e, he⟩
  cases e with
  | truncated x needed available => exact ⟨x, needed, available, he⟩
  | unrecognized byte' x =>
      rcases decodeAt_eq_unrecognized_iff.mp he with ⟨_, hnone, hbyte'⟩
      cases hbyte.symm.trans hbyte'
      cases ho.symm.trans hnone

end Revision

end StackLift
