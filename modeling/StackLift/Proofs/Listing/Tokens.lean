import StackLift.Proofs.Listing.Maximal
import StackLift.Proofs.Literal

/-!
# Tokens and Bytes

The text of an instruction says what its bytes are, up to the choice of the opcode byte.

An instruction is shown by its mnemonic and, behind a blank, the immediate as it is encoded.
The text of the immediate is short: it has no leading zeros, and so does not show how many
bytes there are. That is no loss as long as the number of bytes is known, which a line shows
in another column. From there the way back has three steps. The text is read as a number, by
the reader for hexadecimal literals and by the one for addresses alike; the number is put
down as so many bytes, the least significant first; and these are the bytes of the immediate,
since all of them have gone into the number and there was room for eight.

## Theorems

* `tokens_of_decode`: What an instruction that can be decoded is shown as.
* `tokens_of_mem_lines`: The tokens of a line give back the bytes of the immediate.
-/

namespace StackLift

namespace Revision

variable {r : Revision} {m : Image} {a address : UInt64} {window : List UInt8} {i : Instruction}
  {l : Line}

/-- An instruction that can be decoded is shown as its mnemonic if it is a byte long, and
    otherwise as the mnemonic and a number whose low bytes are the immediate. -/
theorem tokens_of_decode (hi : r.decode address window = .ok i) :
    (i.encoding.length = 1 → i.tokens = [.instruction i.opcode.mnemonic]) ∧
    (i.encoding.length ≠ 1 → ∃ v, i.tokens = [.instruction i.opcode.mnemonic, .separator " ",
        .possibleAddress (Numeral.hex v) v] ∧
      Word.toBytes (i.encoding.length - 1) v = i.encoding.tail) := by
  have hlength : i.encoding.length = i.immediate.length + 1 := List.length_cons
  refine ⟨fun h => ?_, fun h => ?_⟩
  · have hnil : i.immediate = [] := List.eq_nil_of_length_eq_zero (by omega)
    rw [Instruction.tokens, Instruction.operand?, if_pos hnil]
  · have hne : i.immediate ≠ [] := fun hc => h (by rw [hlength, hc]; rfl)
    refine ⟨Word.ofBytes i.immediate, ?_, ?_⟩
    · rw [Instruction.tokens, Instruction.operand?, if_neg hne]
    · rw [hlength, Nat.add_sub_cancel, Word.toBytes_ofBytes (length_immediate_le hi)]
      rfl

/-- A line whose encoding is one byte has one token, the mnemonic of the opcode that the byte
    stands for. Any other line has three: the mnemonic, a blank, and a number. The text of the
    number is its hexadecimal spelling, which is read as the number again, be it as a
    hexadecimal literal or as an address. And the number, put down in as many bytes as stand
    behind the first, gives back these bytes. -/
theorem tokens_of_mem_lines (hl : l ∈ (r.listing m a).lines) :
    ∃ byte rest o, l.encoding = byte :: rest ∧ r.opcodes.lookup? byte = some o ∧
      (l.encoding.length = 1 → l.tokens = [.instruction o.mnemonic]) ∧
      (l.encoding.length ≠ 1 → ∃ v,
        l.tokens = [.instruction o.mnemonic, .separator " ",
          .possibleAddress (Numeral.hex v) v] ∧
        Literal.hex? UInt64.size (Numeral.hex v) = some v.toNat ∧
        Literal.address? (Numeral.hex v) = some v ∧
        Word.toBytes (l.encoding.length - 1) v = rest) := by
  rcases decodeAt_of_mem_lines hl with ⟨i, _, hi, htokens, hencoding⟩
  rcases decode_eq_ok_iff.mp hi with ⟨byte, _, o, _, ho, _, hio⟩
  rcases tokens_of_decode hi with ⟨hone, hmore⟩
  have hopcode : i.opcode = o := by rw [hio]
  have hbyte : r.opcodes.lookup? i.byte = some o := by
    rw [hio]
    exact ho
  rw [hopcode] at hone hmore
  rw [htokens, hencoding]
  refine ⟨i.byte, i.immediate, o, rfl, hbyte, hone, fun h => ?_⟩
  rcases hmore h with ⟨v, hv, hbytes⟩
  exact ⟨v, hv, Literal.hex?_hex v, Literal.address?_hex v, hbytes⟩

/-- A push of eight bytes, six of which are zero and not shown, gives all of them back. -/
theorem tokens_of_mem_lines_push : ∃ r,
    ofDefinition BuiltinRevision.tigress3.definition = .ok r ∧
    let m : Image := ⟨0x1000, #[0x60, 0xef, 0xbe, 0, 0, 0, 0, 0, 0, 0xb3], by decide⟩
    ∃ l ∈ (r.listing m 0x1000).lines,
      l.tokens = [.instruction "loadq", .separator " ", .possibleAddress "0xbeef" 0xbeef] ∧
      Literal.hex? UInt64.size "0xbeef" = some 0xbeef ∧
      Literal.address? "0xbeef" = some 0xbeef ∧
      Word.toBytes (l.encoding.length - 1) 0xbeef = [0xef, 0xbe, 0, 0, 0, 0, 0, 0] := by
  rcases BuiltinRevision.exists_revision .tigress3 with ⟨r, hr⟩
  refine ⟨r, hr, ?_⟩
  intro m
  let push : Instruction :=
    ⟨0x1000, ⟨"loadq", .qword, .stackPush⟩, 0x60, [0xef, 0xbe, 0, 0, 0, 0, 0, 0]⟩
  let ret : Instruction := ⟨0x1009, ⟨"ret", .absent, .ret⟩, 0xb3, []⟩
  have hpush : r.decodeAt m 0x1000 = .ok push :=
    decodeAt_of_entryOf? (i := push) hr (by decide) (by decide)
  have hret : r.decodeAt m push.next = .ok ret :=
    decodeAt_of_entryOf? (i := ret) hr (by decide) (by decide)
  have hrun : r.straightLine m 0x1000 = ⟨[push, ret], none⟩ :=
    (walk_straightLine r m _).eq_of_walk (.step hpush rfl (.last hret rfl))
  rcases lines_listing r m 0x1000 with ⟨label, hlines⟩
  rw [hrun] at hlines
  have hl : Line.ofInstruction (label push) push ∈ (r.listing m 0x1000).lines := by
    rw [hlines]
    exact List.mem_cons_self
  rcases tokens_of_mem_lines hl with ⟨byte, rest, o, hencoding, _, _, hmore⟩
  have hlong : push.encoding.length ≠ 1 := by decide
  rcases hmore hlong with ⟨v, htokens, hhex, haddress, hbytes⟩
  have hshown : push.tokens =
      [.instruction "loadq", .separator " ", .possibleAddress "0xbeef" 0xbeef] := by decide
  -- What is shown is the mnemonic and the number that the general statement speaks of.
  have hv : Numeral.hex v = "0xbeef" ∧ v = 0xbeef := by
    have hsame := htokens.symm.trans hshown
    simp only [List.cons.injEq, Token.possibleAddress.injEq] at hsame
    exact hsame.2.2.1
  rcases hv with ⟨hspelling, rfl⟩
  rw [hspelling] at hhex haddress
  have hrest : rest = push.immediate := (List.cons.inj hencoding).2.symm
  exact ⟨_, hl, hshown, hhex, haddress, hbytes.trans hrest⟩

end Revision

end StackLift
