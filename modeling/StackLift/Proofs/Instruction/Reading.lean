import StackLift.Lift.Basic
import StackLift.Listing.Line
import StackLift.Proofs.Revision.Checks

/-!
# Readings of a Window

A window of bytes is read for three purposes: for the flow of control, for its text and
for its code. All three go through the decoder, so they cannot disagree on whether there
is an instruction, how long it is and what is wrong if there is none. For the code this is
more than a matter of results. A sink is asked for statements on the way, by a computation
that is the same for every sink; that it returns the length whatever the sink answers, and
that nothing at all is asked where nothing is decoded, is said of the computation itself
(`ReadingsAgree`).

What the decoder says depends on the first byte. The entry of the definition in whose byte
list it stands, which is the only one, gives the width of the immediate, and with it how
many bytes are looked at. Bytes behind these make no difference, and the bytes that are
missing, whatever they are, turn a window that is cut short into one that decodes.

## Main definitions

* `Revision.ReadingsAgree`: The three readings of a window agree.
* `Revision.ReadAlike`: Two windows are read in the same way.
* `Revision.ReadsEntries`: Windows are read as the entries of a definition say.

## Theorems

* `readAlike_of_decode_eq`: Windows that decode to the same are read in the same way.
* `lookup?_of_mem_entry`: A byte means what any entry says in whose byte list it stands.
* `decode_congr`: Decoding looks at the bytes of the instruction only.
* `cases_of_decode_eq_truncated`: When a window is cut short.
* `decode_append_of_truncated`: The missing bytes make a window decode.
* `operand?_eq_sum`: The immediate is the sum of its bytes by their places.
* `readsEntries`: An accepted definition says how windows are read.
-/

namespace StackLift

namespace Revision

/-- The three readings of a window agree. They give the length of what is decoded, or the
    error that decoding fails with, and with an error no sink is asked for anything. -/
structure ReadingsAgree (r : Revision) (address : UInt64) (window : List UInt8) : Prop where
  flow : (r.flowAt address window).map FlowInfo.length =
    (r.decode address window).map Instruction.length
  text : (r.textAt address window).map Prod.snd = (r.decode address window).map Instruction.length
  code : ∀ i, r.decode address window = .ok i → ∀ (μ : Type → Type) (ε : Type) [Monad μ] [Sink μ ε],
    ∃ asked : μ Unit, r.liftAt address window = (do asked; return .ok i.length)
  untouched : ∀ e, r.decode address window = .error e →
    ∀ (μ : Type → Type) (ε : Type) [Monad μ] [Sink μ ε],
      r.liftAt address window = (pure (.error e) : μ (Except DecodeError Nat))

/-- Two windows are read in the same way: they have the same flow and the same text, and
    every sink is asked for the same code. -/
structure ReadAlike (r : Revision) (address : UInt64) (v w : List UInt8) : Prop where
  flow : r.flowAt address v = r.flowAt address w
  text : r.textAt address v = r.textAt address w
  code : ∀ (μ : Type → Type) (ε : Type) [Monad μ] [Sink μ ε],
    (r.liftAt address v : μ (Except DecodeError Nat)) = r.liftAt address w

/-- Windows at an address are read as the entries of a definition say. -/
structure ReadsEntries (r : Revision) (d : Definition) (address : UInt64) : Prop where
  agree : ∀ window, r.ReadingsAgree address window
  /-- An empty window lacks a byte. -/
  empty : r.decode address [] = .error (.truncated address 1 0)
  /-- A byte that stands in no entry is not recognized. -/
  unassigned : ∀ byte rest, (∀ e ∈ d.opcodes, byte ∉ e.bytes) →
    r.decode address (byte :: rest) = .error (.unrecognized byte address)
  /-- With fewer bytes than the entry of the first one asks for, the window is cut short. -/
  short : ∀ e ∈ d.opcodes, ∀ byte ∈ e.bytes, ∀ rest,
    (byte :: rest).length < 1 + e.opcode.width.bytes →
      r.decode address (byte :: rest) =
        .error (.truncated address (1 + e.opcode.width.bytes) (byte :: rest).length)
  /-- With enough of them it decodes to an instruction of just that length, whose immediate
      is the sum of its bytes by their places. -/
  long : ∀ e ∈ d.opcodes, ∀ byte ∈ e.bytes, ∀ rest,
    1 + e.opcode.width.bytes ≤ (byte :: rest).length →
      ∃ i, r.decode address (byte :: rest) = .ok i ∧ i.length = 1 + e.opcode.width.bytes ∧
        i.operand?.map UInt64.toNat = if e.opcode.width.bytes = 0 then none
          else some (∑ k ∈ Finset.range e.opcode.width.bytes,
            ((byte :: rest).getD (1 + k) 0).toNat * 256 ^ k)
  /-- Windows that share the bytes of the instruction are read in the same way. -/
  alike : ∀ e ∈ d.opcodes, ∀ byte ∈ e.bytes, ∀ rest other,
    (byte :: rest).take (1 + e.opcode.width.bytes) = other.take (1 + e.opcode.width.bytes) →
      r.ReadAlike address (byte :: rest) other
  /-- A window that is cut short decodes with any bytes in place of the missing ones. -/
  completed : ∀ window needed available, window ≠ [] →
    r.decode address window = .error (.truncated address needed available) →
      ∀ extra, needed ≤ (window ++ extra).length →
        ∃ i, r.decode address (window ++ extra) = .ok i ∧ i.length = needed

variable {d : Definition} {r : Revision} {address : UInt64} {v w rest : List UInt8}
  {byte : UInt8} {o : Opcode} {e : OpcodeEntry} {i : Instruction}

theorem readingsAgree (r : Revision) (address : UInt64) (window : List UInt8) :
    r.ReadingsAgree address window := by
  refine ⟨?_, ?_, ?_, ?_⟩
  · rw [flowAt]
    cases r.decode address window <;> rfl
  · rw [textAt]
    cases r.decode address window <;> rfl
  · intro i hi μ ε _ _
    refine ⟨r.lift i, ?_⟩
    rw [liftAt, hi]
  · intro e he μ ε _ _
    rw [liftAt, he]

theorem readAlike_of_decode_eq (h : r.decode address v = r.decode address w) :
    r.ReadAlike address v w := by
  refine ⟨?_, ?_, ?_⟩
  · rw [flowAt, flowAt, h]
  · rw [textAt, textAt, h]
  · intro μ ε _ _
    rw [liftAt, liftAt, h]

theorem decode_cons_of_lookup? (ho : r.opcodes.lookup? byte = some o) (rest : List UInt8) :
    r.decode address (byte :: rest) =
      if rest.length < o.width.bytes then .error (.truncated address o.length (1 + rest.length))
      else .ok { address, opcode := o, byte, immediate := rest.take o.width.bytes } := by
  simp only [decode, ho]

/-- Decoding looks at the first byte and at those of the immediate, and at no others. -/
theorem decode_congr (ho : r.opcodes.lookup? byte = some o)
    (h : (byte :: rest).take o.length = w.take o.length) :
    r.decode address (byte :: rest) = r.decode address w := by
  have hlength : o.length = o.width.bytes + 1 := Nat.add_comm _ _
  rw [hlength] at h
  cases w with
  | nil => simp only [List.take_succ_cons, List.take_nil, reduceCtorEq] at h
  | cons byte' rest' =>
      rw [List.take_succ_cons, List.take_succ_cons, List.cons.injEq] at h
      rcases h with ⟨rfl, htake⟩
      -- Either both are long enough, or they are cut short at the same byte.
      have hmin := congrArg List.length htake
      rw [List.length_take, List.length_take] at hmin
      rw [decode_cons_of_lookup? ho, decode_cons_of_lookup? ho, htake]
      by_cases hrest : rest.length < o.width.bytes
      · have hrest' : rest'.length = rest.length := by omega
        rw [hrest']
      · have hrest' : ¬rest'.length < o.width.bytes := by omega
        rw [if_neg hrest, if_neg hrest']

/-- A window is cut short if it is empty, or if there are fewer bytes behind the first than
    the immediate has. -/
theorem cases_of_decode_eq_truncated {x : UInt64} {needed available : Nat}
    (h : r.decode address w = .error (.truncated x needed available)) :
    (w = [] ∧ needed = 1 ∧ available = 0) ∨
      ∃ byte rest o, w = byte :: rest ∧ r.opcodes.lookup? byte = some o ∧
        rest.length < o.width.bytes ∧ needed = o.length ∧ available = 1 + rest.length := by
  cases w with
  | nil =>
      cases h
      exact Or.inl ⟨rfl, rfl, rfl⟩
  | cons byte rest =>
      cases ho : r.opcodes.lookup? byte with
      | none => simp only [decode, ho, Except.error.injEq, reduceCtorEq] at h
      | some o =>
          rw [decode_cons_of_lookup? ho] at h
          by_cases hrest : rest.length < o.width.bytes
          · rw [if_pos hrest] at h
            cases h
            exact Or.inr ⟨byte, rest, o, rfl, ho, hrest, rfl, rfl⟩
          · rw [if_neg hrest] at h
            contradiction

theorem decode_append_of_truncated {x : UInt64} {needed available : Nat} (hne : w ≠ [])
    (h : r.decode address w = .error (.truncated x needed available)) {extra : List UInt8}
    (hextra : needed ≤ (w ++ extra).length) :
    ∃ i, r.decode address (w ++ extra) = .ok i ∧ i.length = needed := by
  rcases cases_of_decode_eq_truncated h with ⟨hnil, _⟩ | ⟨byte, rest, o, rfl, ho, _, rfl, _⟩
  · exact absurd hnil hne
  · -- The first byte is still the same, and now it has its immediate.
    rw [List.cons_append, List.length_cons, Opcode.length] at hextra
    have hi : r.decode address (byte :: (rest ++ extra)) = _ :=
      decode_cons_of_lookup? ho (rest ++ extra)
    rw [if_neg (by omega)] at hi
    exact ⟨_, hi, rfl⟩

/-- The immediate is the sum of its bytes by their places. It has eight bytes at most, so
    nothing of the sum is cut off. -/
theorem operand?_eq_sum (hi : r.decode address w = .ok i) :
    i.operand?.map UInt64.toNat = if i.opcode.width.bytes = 0 then none
      else some (∑ k ∈ Finset.range i.opcode.width.bytes, (w.getD (1 + k) 0).toNat * 256 ^ k) := by
  have hlength := length_immediate hi
  have hfits := length_immediate_le hi
  rcases decode_eq_ok_iff.mp hi with ⟨byte, rest, o, rfl, _, hle, rfl⟩
  simp only [Instruction.operand?] at hlength hfits ⊢
  by_cases hzero : o.width.bytes = 0
  · have hnil : rest.take o.width.bytes = [] := by rw [hzero, List.take_zero]
    rw [if_pos hzero, if_pos hnil, Option.map_none]
  · have hnil : rest.take o.width.bytes ≠ [] := by
      intro hc
      rw [hc, List.length_nil] at hlength
      exact hzero hlength.symm
    rw [if_neg hzero, if_neg hnil, Option.map_some, Option.some.injEq]
    -- The immediate fits a word, which is then the value of its digits.
    rw [Word.toNat_ofBytes_of_length_le hfits, Word.ofDigits_eq_sum, hlength]
    refine Finset.sum_congr rfl fun k hk => ?_
    rw [Finset.mem_range] at hk
    rw [Nat.add_comm 1 k, List.getD_cons_succ, List.getD_eq_getElem?_getD,
      List.getD_eq_getElem?_getD, List.getElem?_take_of_lt hk]

section Accepted

variable (hr : ofDefinition d = .ok r)
include hr

theorem lookup?_of_mem_entry (he : e ∈ d.opcodes) (hb : byte ∈ e.bytes) :
    r.opcodes.lookup? byte = some e.opcode := by
  rcases Definition.lookup?_of_ofDefinition hr byte with ⟨before, f, behind, hd, _, hother, ho⟩ | h
  · -- The entry is the one that has the byte, since all others do not.
    rw [hd, List.mem_append, List.mem_cons] at he
    rcases he with he | rfl | he
    · exact absurd hb (hother e (List.mem_append_left _ he))
    · exact ho
    · exact absurd hb (hother e (List.mem_append_right _ he))
  · exact absurd hb (h.1 e he)

theorem lookup?_eq_none_of_forall (h : ∀ e ∈ d.opcodes, byte ∉ e.bytes) :
    r.opcodes.lookup? byte = none := by
  rcases Definition.lookup?_of_ofDefinition hr byte with ⟨_, f, _, hd, hb, _⟩ | hnone
  · exact absurd hb (h f (hd ▸ List.mem_append_right _ List.mem_cons_self))
  · exact hnone.2

/-- In the revision that an accepted definition describes, windows are read as the entries of
    the definition say. -/
theorem readsEntries (address : UInt64) : r.ReadsEntries d address where
  agree := r.readingsAgree address
  empty := rfl
  unassigned := by
    intro byte rest h
    simp only [decode, lookup?_eq_none_of_forall hr h]
  short := by
    intro e he byte hb rest hshort
    rw [List.length_cons] at hshort
    rw [decode_cons_of_lookup? (lookup?_of_mem_entry hr he hb), if_pos (by omega), Opcode.length,
      List.length_cons, Nat.add_comm rest.length]
  long := by
    intro e he byte hb rest hlong
    rw [List.length_cons] at hlong
    have hi : r.decode address (byte :: rest) = _ :=
      decode_cons_of_lookup? (lookup?_of_mem_entry hr he hb) rest
    rw [if_neg (by omega)] at hi
    exact ⟨_, hi, rfl, operand?_eq_sum hi⟩
  alike := by
    intro e he byte hb rest other h
    exact readAlike_of_decode_eq (decode_congr (lookup?_of_mem_entry hr he hb) h)
  completed := by
    intro window needed available hne h extra hextra
    exact decode_append_of_truncated hne h hextra

end Accepted

/-- Windows at the end of the address space, where branches are relative. -/
theorem readsEntries_last : ∃ r,
    ofDefinition BuiltinRevision.tigress3.definition = .ok r ∧
    r.ReadsEntries BuiltinRevision.tigress3.definition 0xffffffffffffffff := by
  rcases BuiltinRevision.exists_revision .tigress3 with ⟨r, hr⟩
  exact ⟨r, hr, readsEntries hr _⟩

end Revision

end StackLift
