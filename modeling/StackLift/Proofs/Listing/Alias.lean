import StackLift.Proofs.Lift.Block
import StackLift.Proofs.Opcode.Table

/-!
# Interchangeable Bytes

Which of the bytes of an opcode stands in the image makes no difference.

Bytes that share a descriptor decode to instructions that differ in the byte and in nothing
else, and the byte is only ever shown. What takes more is that a byte is in no other role
when it is exchanged. A byte at the address of an instruction could be an operand byte of
another one, or could be seen in the window that ends the listing, and then the flow of
control or the reason for the end would be another one. But the instructions lie one behind
the other and do not overlap, and the end comes behind all of them. So the walk in the
changed image is the walk in the old one, with the byte of each instruction exchanged.

## Main definitions

* `Image.exchange`, `Instruction.exchange`, `Line.exchange`: Other bytes at some addresses.
* `Revision.ExchangesAliases`: Opcode bytes are exchanged for bytes that mean the same.

## Theorems

* `window_exchange`, `retrieve?_exchange`: What is seen of exchanged bytes.
* `decodeAt_exchange`: An instruction whose first byte alone is exchanged.
* `straightLine_exchange`: A walk whose opcode bytes are exchanged for aliases.
* `listing_exchange`: Only the encodings show which alias there is.
-/

namespace StackLift

/-- Bytes one behind the other at an address, some of them exchanged. -/
def exchangeBytes (f : UInt64 → Option UInt8) (a : UInt64) (bytes : List UInt8) : List UInt8 :=
  bytes.mapIdx fun j b => (f (a + UInt64.ofNat j)).getD b

variable {f : UInt64 → Option UInt8} {a : UInt64} {bytes : List UInt8}

theorem exchangeBytes_eq_self (h : ∀ j < bytes.length, f (a + UInt64.ofNat j) = none) :
    exchangeBytes f a bytes = bytes := by
  refine List.ext_getElem List.length_mapIdx ?_
  intro j hj hj'
  simp only [exchangeBytes, List.getElem_mapIdx, h j hj', Option.getD_none]

/-- Only the first byte changes where no other is exchanged. -/
theorem exchangeBytes_cons {b : UInt8}
    (h : ∀ j, 0 < j → j < (b :: bytes).length → f (a + UInt64.ofNat j) = none) :
    exchangeBytes f a (b :: bytes) = (f a).getD b :: bytes := by
  have hzero : a + UInt64.ofNat 0 = a := UInt64.add_zero a
  rw [exchangeBytes, List.mapIdx_cons, hzero, List.cons.injEq]
  refine ⟨rfl, List.ext_getElem List.length_mapIdx ?_⟩
  intro j hj hj'
  rw [List.getElem_mapIdx, h (j + 1) (Nat.succ_pos j) (Nat.succ_lt_succ hj'), Option.getD_none]

namespace Image

/-- The image with the bytes at some addresses exchanged. -/
def exchange (f : UInt64 → Option UInt8) (m : Image) : Image where
  base := m.base
  bytes := m.bytes.mapIdx fun o b => (f (m.base + UInt64.ofNat o)).getD b
  size_lt := by
    rw [Array.size_mapIdx]
    exact m.size_lt

variable {m : Image} {o n limit : Nat} {xs : List UInt8}

theorem size_exchange (f : UInt64 → Option UInt8) (m : Image) : (m.exchange f).size = m.size :=
  Array.size_mapIdx

theorem offset?_exchange (f : UInt64 → Option UInt8) (m : Image) (a : UInt64) :
    (m.exchange f).offset? a = m.offset? a := by
  rw [offset?, offset?, size_exchange, exchange]

/-- The position of a byte from an address on is the one of its own address. -/
theorem take_drop_exchange (ho : m.offset? a = some o) :
    ((m.exchange f).bytes.toList.drop o).take n =
      exchangeBytes f a ((m.bytes.toList.drop o).take n) := by
  have haddress (j : Nat) : m.base + UInt64.ofNat (o + j) = a + UInt64.ofNat j := by
    rw [UInt64.ofNat_add, ← UInt64.add_assoc, base_add_of_offset? ho]
  refine List.ext_getElem? ?_
  intro j
  rw [exchange, Array.toList_mapIdx, exchangeBytes, List.getElem?_mapIdx, List.getElem?_take,
    List.getElem?_take, List.getElem?_drop, List.getElem?_drop, List.getElem?_mapIdx]
  by_cases hj : j < n
  · rw [if_pos hj, if_pos hj, haddress]
  · rw [if_neg hj, if_neg hj, Option.map_none]

theorem window_exchange (f : UInt64 → Option UInt8) (m : Image) (a : UInt64) (limit : Nat) :
    (m.exchange f).window a limit = exchangeBytes f a (m.window a limit) := by
  have hoffset := offset?_exchange f m a
  cases ho : m.offset? a with
  | none =>
      rw [ho] at hoffset
      simp only [window, ho, hoffset]
      rfl
  | some o =>
      rw [ho] at hoffset
      rw [window_of_offset? hoffset, window_of_offset? ho, take_drop_exchange ho]

theorem retrieve?_exchange (h : m.retrieve? a n = some xs) :
    (m.exchange f).retrieve? a n = some (exchangeBytes f a xs) := by
  rcases retrieve?_eq_some_iff.mp h with ⟨o, ho, hle, rfl⟩
  refine retrieve?_eq_some_iff.mpr ⟨o, ?_, ?_, ?_⟩
  · rw [offset?_exchange, ho]
  · rw [size_exchange]
    exact hle
  · rw [take_drop_exchange ho]

end Image

namespace Instruction

/-- The instruction with its opcode byte exchanged, if that is done at its address. -/
def exchange (f : UInt64 → Option UInt8) (i : Instruction) : Instruction :=
  { i with byte := (f i.address).getD i.byte }

end Instruction

namespace Line

/-- The line with the first byte of its encoding exchanged, if that is done at its address. -/
def exchange (f : UInt64 → Option UInt8) (x : Line) : Line :=
  match f x.address with
  | some b => { x with encoding := b :: x.encoding.tail }
  | none => x

theorem exchange_ofInstruction (f : UInt64 → Option UInt8) (label : Option String)
    (i : Instruction) :
    (ofInstruction label i).exchange f = ofInstruction label (i.exchange f) := by
  unfold exchange Instruction.exchange
  cases h : f i.address with
  | none =>
      simp only [ofInstruction, h]
      rfl
  | some b =>
      simp only [ofInstruction, h]
      rfl

end Line

namespace Revision

variable {r : Revision} {m : Image} {i : Instruction} {as : List UInt64}

/-- Bytes are exchanged at some of the addresses only, each for one that the byte of the
    image there shares its descriptor with. -/
def ExchangesAliases (r : Revision) (m : Image) (as : List UInt64) (f : UInt64 → Option UInt8) :
    Prop :=
  ∀ a b, f a = some b → a ∈ as ∧ ∃ c, m.retrieve? a 1 = some [c] ∧ b ∈ r.opcodes.aliases c

/-- An instruction is decoded all the same if its opcode byte is exchanged for one with the
    same meaning and its other bytes are left as they are. -/
theorem decodeAt_exchange (hi : r.decodeAt m i.address = .ok i)
    (hbyte : r.opcodes.lookup? (i.exchange f).byte = r.opcodes.lookup? i.byte)
    (hrest : ∀ j, 0 < j → j < i.length → f (i.address + UInt64.ofNat j) = none) :
    r.decodeAt (m.exchange f) i.address = .ok (i.exchange f) := by
  rcases decodeAt_eq_ok_iff.mp hi with ⟨_, ho, hbytes⟩
  refine decodeAt_eq_ok_iff.mpr ⟨rfl, hbyte.trans ho, ?_⟩
  have hencoding : exchangeBytes f i.address i.encoding = (i.exchange f).encoding := by
    refine exchangeBytes_cons ?_
    intro j hpos hj
    refine hrest j hpos ?_
    rwa [← length_encoding hi]
  rw [← hencoding]
  exact Image.retrieve?_exchange hbytes

theorem lookup?_exchange (hf : r.ExchangesAliases m as f) (hi : r.decodeAt m i.address = .ok i) :
    r.opcodes.lookup? (i.exchange f).byte = r.opcodes.lookup? i.byte := by
  unfold Instruction.exchange
  cases hb : f i.address with
  | none => rfl
  | some b =>
      rcases hf i.address b hb with ⟨_, c, hc, halias⟩
      -- The byte of the image is the one that was decoded.
      have hbyte := Image.retrieve?_take (retrieve?_of_decodeAt hi) i.opcode.length_pos
      cases hc.symm.trans hbyte
      exact OpcodeTable.lookup?_of_mem_aliases halias

/-- A walk whose opcode bytes are exchanged for aliases consists of the same instructions with
    these bytes in them, and ends for the same reason. -/
theorem straightLine_exchange (hf : r.ExchangesAliases m (r.listing m a).block.addresses f) :
    r.straightLine (m.exchange f) a =
      ⟨(r.straightLine m a).instructions.map (Instruction.exchange f),
        (r.straightLine m a).error⟩ := by
  have hwalk := walk_straightLine r m a
  have hnone : ∀ b, b ∉ (r.straightLine m a).instructions.map Instruction.address →
      f b = none := by
    intro b hb
    refine Option.eq_none_iff_forall_ne_some.mpr ?_
    intro c hc
    exact hb (addresses_listing r m a ▸ (hf b c hc).1)
  refine (walk_straightLine r _ a).eq_of_walk (hwalk.map ?_ ?_)
  · intro i hi
    have hdecode := hwalk.decodeAt_of_mem hi
    refine ⟨decodeAt_exchange hdecode (lookup?_exchange hf hdecode) ?_, rfl, rfl⟩
    intro j hpos hj
    exact hnone _ (hwalk.address_add_not_mem hi hpos hj)
  · -- The window behind the walk shows no exchanged byte.
    intro e he
    rw [decodeAt, Image.window_exchange, exchangeBytes_eq_self]
    · exact (hwalk.of_error_eq_some he).2
    · intro j hj
      have hlength : j < m.size := Nat.lt_of_lt_of_le hj Image.length_window_le_size
      have hm : m.size < 0x8000000000000000 := m.size_lt
      have hsize := hwalk.size_lt
      rw [UInt64.add_assoc, ← UInt64.ofNat_add]
      exact hnone _ (hwalk.size_add_not_mem (by omega))

theorem recording_exchange (r : Revision) (is : List Instruction) :
    r.recording (is.map (Instruction.exchange f)) = r.recording is := List.foldl_map

theorem ofRun_exchange (r : Revision) (a : UInt64) (run : Run) :
    Listing.ofRun r a ⟨run.instructions.map (Instruction.exchange f), run.error⟩ =
      { Listing.ofRun r a run with
        lines := (Listing.ofRun r a run).lines.map (Line.exchange f) } := by
  have hfinish : ((run.instructions.map (Instruction.exchange f)).getLast?.map
      Instruction.next).getD a = (run.instructions.getLast?.map Instruction.next).getD a := by
    rw [List.getLast?_map, Option.map_map]
    rfl
  have hoffsets : (run.instructions.map (Instruction.exchange f)).map (·.address - a) =
      run.instructions.map (·.address - a) := List.map_map
  unfold Listing.ofRun
  rw [Listing.mk.injEq]
  refine ⟨?_, ?_, ?_, ?_, rfl⟩
  · rw [hfinish, hoffsets]
  · rw [List.map_map, List.map_map]
    refine List.map_congr_left fun i _ => ?_
    exact (Line.exchange_ofInstruction f _ i).symm
  · exact List.flatMap_map ..
  · rw [List.getLast?_map, Option.map_map]
    rfl

/-- If opcode bytes at addresses of a listing are exchanged for aliases, the listing at the
    same address is the same but for these bytes in the encodings of its lines, and its block
    is lifted to the same code. -/
theorem listing_exchange (r : Revision) (m : Image) (a : UInt64) (f : UInt64 → Option UInt8)
    (hf : r.ExchangesAliases m (r.listing m a).block.addresses f) :
    let l := r.listing m a
    r.listing (m.exchange f) a = { l with lines := l.lines.map (Line.exchange f) } ∧
    ∃ c, r.liftBlock m l.block = .ok c ∧ r.liftBlock (m.exchange f) l.block = .ok c := by
  intro l
  have hrun := straightLine_exchange hf
  have hlisting : r.listing (m.exchange f) a = { l with lines := l.lines.map (Line.exchange f) } :=
    (congrArg (Listing.ofRun r a) hrun).trans (ofRun_exchange r a _)
  have hcode := liftBlock_listing r (m.exchange f) a
  rw [hrun, recording_exchange, hlisting] at hcode
  exact ⟨hlisting, _, liftBlock_listing r m a, hcode⟩

/-- A push and a sum, both under another byte. In the immediate of the push the same bytes
    stay as they are. -/
theorem listing_exchange_push : ∃ r,
    ofDefinition BuiltinRevision.tigress3.definition = .ok r ∧
    let m : Image := ⟨0x1000, #[0x60, 0x0e, 0x60, 0, 0, 0, 0, 0, 0, 0x0e, 0xb3], by decide⟩
    let f : UInt64 → Option UInt8 := fun a =>
      if a = 0x1000 then some 0xe1 else if a = 0x1009 then some 0x27 else none
    let l := r.listing m 0x1000
    (m.exchange f).bytes = #[0xe1, 0x0e, 0x60, 0, 0, 0, 0, 0, 0, 0x27, 0xb3] ∧
    r.ExchangesAliases m l.block.addresses f ∧
    r.listing (m.exchange f) 0x1000 = { l with lines := l.lines.map (Line.exchange f) } ∧
    ∃ c, r.liftBlock m l.block = .ok c ∧ r.liftBlock (m.exchange f) l.block = .ok c := by
  rcases BuiltinRevision.exists_revision .tigress3 with ⟨r, hr⟩
  refine ⟨r, hr, ?_⟩
  intro m f l
  let push : Instruction :=
    ⟨0x1000, ⟨"loadq", .qword, .stackPush⟩, 0x60, [0x0e, 0x60, 0, 0, 0, 0, 0, 0]⟩
  let sum : Instruction := ⟨0x1009, ⟨"addq", .absent, .stackBinaryOp .add⟩, 0x0e, []⟩
  let ret : Instruction := ⟨0x100a, ⟨"ret", .absent, .ret⟩, 0xb3, []⟩
  have hpush : r.decodeAt m 0x1000 = .ok push :=
    decodeAt_of_entryOf? (i := push) hr (by decide) (by decide)
  have hsum : r.decodeAt m push.next = .ok sum :=
    decodeAt_of_entryOf? (i := sum) hr (by decide) (by decide)
  have hret : r.decodeAt m sum.next = .ok ret :=
    decodeAt_of_entryOf? (i := ret) hr (by decide) (by decide)
  have hrun : r.straightLine m 0x1000 = ⟨[push, sum, ret], none⟩ :=
    (walk_straightLine r m _).eq_of_walk (.step hpush rfl (.step hsum rfl (.last hret rfl)))
  have haddresses : l.block.addresses = [0x1000, 0x1009, 0x100a] := by
    rw [addresses_listing, hrun]
    rfl
  have hslot (b : UInt8) :
      (ofDefinition BuiltinRevision.tigress3.definition).toOption.map (·.opcodes.slot b) =
        some (r.opcodes.slot b) := by
    rw [hr]
    rfl
  have hpushes : 0xe1 ∈ r.opcodes.aliases 0x60 :=
    OpcodeTable.mem_aliases_iff.mpr ⟨0, Option.some.inj ((hslot 0xe1).symm.trans (by decide)),
      Option.some.inj ((hslot 0x60).symm.trans (by decide))⟩
  have hsums : 0x27 ∈ r.opcodes.aliases 0x0e :=
    OpcodeTable.mem_aliases_iff.mpr ⟨5, Option.some.inj ((hslot 0x27).symm.trans (by decide)),
      Option.some.inj ((hslot 0x0e).symm.trans (by decide))⟩
  have hf : r.ExchangesAliases m l.block.addresses f := by
    intro a b hab
    simp only [f] at hab
    rw [haddresses]
    split at hab
    · next ha =>
        cases hab
        rw [ha]
        exact ⟨by decide, 0x60, by decide, hpushes⟩
    · split at hab
      · next ha =>
          cases hab
          rw [ha]
          exact ⟨by decide, 0x0e, by decide, hsums⟩
      · cases hab
  exact ⟨by decide, hf, listing_exchange r m 0x1000 f hf⟩

end Revision

end StackLift
