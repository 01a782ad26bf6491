import StackLift.Proofs.Listing.Maximal

/-!
# Longer Images

Bytes behind the end of an image only make longer what the end has cut short.

A window near the end of an image is short, and it grows when bytes are appended. So it is
not enough that the bytes of the image stay where they are. But an instruction is decoded
wherever its bytes can be retrieved, and a byte that stands for no opcode is not recognized
wherever it can be. Neither depends on what comes behind, and both therefore stay as they
are. What is left is an instruction that is cut short. An address outside the image counts as
one, with no byte of it left.

A listing that ends for any other reason consequently is the same in the longer image. If it
ends with an instruction that is cut short, the walk in the longer image at least begins with
the same instructions.

## Main definitions

* `Image.extend`: An image with further bytes behind it.
* `Listing.EndsTruncated`: A listing ends with an instruction that is cut short.

## Theorems

* `retrieve?_extend`: Bytes of an image are bytes of the longer one.
* `decodeAt_extend`, `decodeAt_extend_unrecognized`: What decoding a longer image keeps.
* `straightLine_extend`: A walk that is not cut short stays as it is.
* `listing_extend`: Further bytes only make longer what is cut short.
-/

namespace StackLift

namespace Image

/-- The image with further bytes behind its last one. -/
def extend (m : Image) (extra : Array UInt8) (h : m.size + extra.size < 0x8000000000000000) :
    Image where
  base := m.base
  bytes := m.bytes ++ extra
  size_lt := by
    rw [Array.size_append]
    exact h

variable {m : Image} {a : UInt64} {o n : Nat} {xs : List UInt8} {extra : Array UInt8}
  (h : m.size + extra.size < 0x8000000000000000)

theorem size_extend : (m.extend extra h).size = m.size + extra.size := Array.size_append

theorem offset?_extend (ho : m.offset? a = some o) : (m.extend extra h).offset? a = some o := by
  have hsize := size_extend h
  rw [offset?_eq_some_iff] at ho ⊢
  exact ⟨by omega, ho.2⟩

theorem retrieve?_extend (hx : m.retrieve? a n = some xs) :
    (m.extend extra h).retrieve? a n = some xs := by
  rcases retrieve?_eq_some_iff.mp hx with ⟨o, ho, hle, rfl⟩
  have hsize := size_extend h
  have hlength : o + n ≤ m.bytes.toList.length := hle
  refine retrieve?_eq_some_iff.mpr ⟨o, offset?_extend h ho, by omega, ?_⟩
  rw [extend, Array.toList_append, List.drop_append_of_le_length (by omega),
    List.take_append_of_le_length (by rw [List.length_drop]; omega)]

end Image

namespace Listing

/-- The listing ends with an instruction that is cut short. -/
def EndsTruncated (l : Listing) : Prop :=
  ∃ address needed available, l.error = some (.truncated address needed available)

end Listing

namespace Revision

variable {r : Revision} {m : Image} {a : UInt64} {i : Instruction} {byte : UInt8}
  {extra : Array UInt8} (h : m.size + extra.size < 0x8000000000000000)

theorem decodeAt_extend (hi : r.decodeAt m a = .ok i) :
    r.decodeAt (m.extend extra h) a = .ok i := by
  rcases decodeAt_eq_ok_iff.mp hi with ⟨haddress, ho, hbytes⟩
  exact decodeAt_eq_ok_iff.mpr ⟨haddress, ho, Image.retrieve?_extend h hbytes⟩

theorem decodeAt_extend_unrecognized {x : UInt64}
    (he : r.decodeAt m a = .error (.unrecognized byte x)) :
    r.decodeAt (m.extend extra h) a = .error (.unrecognized byte x) := by
  rcases decodeAt_eq_unrecognized_iff.mp he with ⟨haddress, ho, hbyte⟩
  exact decodeAt_eq_unrecognized_iff.mpr ⟨haddress, ho, Image.retrieve?_extend h hbyte⟩

/-- A walk that does not end with an instruction cut short is the same in the longer image. -/
theorem straightLine_extend (hl : ¬(r.listing m a).EndsTruncated) :
    r.straightLine (m.extend extra h) a = r.straightLine m a := by
  have hwalk := walk_straightLine r m a
  have hwalk' : Walk r (m.extend extra h) a
      ⟨(r.straightLine m a).instructions.map id, (r.straightLine m a).error⟩ := by
    refine hwalk.map ?_ ?_
    · intro i hi
      exact ⟨decodeAt_extend h (hwalk.decodeAt_of_mem hi), rfl, rfl⟩
    · intro e he
      have hstop := (hwalk.of_error_eq_some he).2
      cases e with
      | unrecognized byte x => exact decodeAt_extend_unrecognized h hstop
      | truncated x needed available => exact absurd ⟨x, needed, available, he⟩ hl
  rw [List.map_id] at hwalk'
  exact (walk_straightLine r _ a).eq_of_walk hwalk'

/-- The instructions of a walk are also the first ones in the longer image. -/
theorem instructions_isPrefix_extend (r : Revision) (a : UInt64) :
    (r.straightLine m a).instructions <+:
      (r.straightLine (m.extend extra h) a).instructions := by
  have hwalk := walk_straightLine r m a
  refine hwalk.isPrefix (walk_straightLine r _ a) ?_
  intro i hi
  exact decodeAt_extend h (hwalk.decodeAt_of_mem hi)

/-- Bytes behind the end of an image only make longer what the end has cut short. A listing
    that does not end with an instruction cut short stays just as it is. The lines of one
    that does are the first lines of the listing in the longer image. -/
theorem listing_extend (r : Revision) (m : Image) (extra : Array UInt8)
    (h : m.size + extra.size < 0x8000000000000000) (a : UInt64) :
    let l := r.listing m a
    let l' := r.listing (m.extend extra h) a
    (¬l.EndsTruncated → l' = l) ∧ (l.EndsTruncated → l.lines <+: l'.lines) := by
  intro l l'
  refine ⟨?_, ?_⟩
  · intro hl
    exact congrArg (Listing.ofRun r a) (straightLine_extend h hl)
  · intro _
    exact (instructions_isPrefix_extend h r a).map _

/-- A return, which does not depend on what is appended, and a push that is cut short and
    has all its bytes when they are appended. -/
theorem listing_extend_push : ∃ r,
    ofDefinition BuiltinRevision.tigress3.definition = .ok r ∧
    let m : Image := ⟨0x1000, #[0xb3, 0x4e, 0x60, 0x01], by decide⟩
    let m' := m.extend #[0, 0, 0, 0, 0, 0, 0] (by decide)
    ¬(r.listing m 0x1000).EndsTruncated ∧ r.listing m' 0x1000 = r.listing m 0x1000 ∧
    (r.listing m 0x1001).EndsTruncated ∧
      (r.listing m 0x1001).lines <+: (r.listing m' 0x1001).lines ∧
      (r.listing m 0x1001).lines.length = 1 ∧ (r.listing m' 0x1001).lines.length = 2 := by
  rcases BuiltinRevision.exists_revision .tigress3 with ⟨r, hr⟩
  refine ⟨r, hr, ?_⟩
  intro m m'
  let ret : Instruction := ⟨0x1000, ⟨"ret", .absent, .ret⟩, 0xb3, []⟩
  let nop : Instruction := ⟨0x1001, ⟨"nop", .absent, .nop⟩, 0x4e, []⟩
  let push : Instruction :=
    ⟨0x1002, ⟨"loadq", .qword, .stackPush⟩, 0x60, [0x01, 0, 0, 0, 0, 0, 0, 0]⟩
  have hret : r.decodeAt m 0x1000 = .ok ret :=
    decodeAt_of_entryOf? (i := ret) hr (by decide) (by decide)
  have hnop : r.decodeAt m 0x1001 = .ok nop :=
    decodeAt_of_entryOf? (i := nop) hr (by decide) (by decide)
  have hpush : r.decodeAt m' nop.next = .ok push :=
    decodeAt_of_entryOf? (i := push) hr (by decide) (by decide)
  have hlookup : r.opcodes.lookup? 0x60 = some push.opcode := by
    rw [lookup?_eq_entryOf? hr]
    decide
  have hshort : ∃ x needed available,
      r.decodeAt m nop.next = .error (.truncated x needed available) :=
    exists_truncated_of_retrieve? hlookup (by decide) (by decide)
  have hend : ∃ e, r.decodeAt m' push.next = .error e :=
    undecodable_iff.mp (Or.inl (by decide))
  rcases hshort with ⟨x, needed, available, hshort⟩
  rcases hend with ⟨e, hend⟩
  have hrun : r.straightLine m 0x1000 = ⟨[ret], none⟩ :=
    (walk_straightLine r m _).eq_of_walk (.last hret rfl)
  have hrun' : r.straightLine m 0x1001 = ⟨[nop], some (.truncated x needed available)⟩ :=
    (walk_straightLine r m _).eq_of_walk (.step hnop rfl (.stop hshort))
  have hlonger : r.straightLine m' 0x1001 = ⟨[nop, push], some e⟩ :=
    (walk_straightLine r m' _).eq_of_walk
      (.step (decodeAt_extend _ hnop) rfl (.step hpush rfl (.stop hend)))
  have hwhole : ¬(r.listing m 0x1000).EndsTruncated := by
    intro htruncated
    rcases htruncated with ⟨x, needed, available, hl⟩
    cases (congrArg Run.error hrun).symm.trans hl
  have htruncated : (r.listing m 0x1001).EndsTruncated :=
    ⟨x, needed, available, congrArg Run.error hrun'⟩
  refine ⟨hwhole, (listing_extend r m _ (by decide) 0x1000).1 hwhole, htruncated,
    (listing_extend r m _ (by decide) 0x1001).2 htruncated, ?_, ?_⟩
  · rw [length_lines, hrun']
    rfl
  · rw [length_lines, hlonger]
    rfl

end Revision

end StackLift
