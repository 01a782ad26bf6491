import Mathlib.Logic.Basic
import StackLift.Proofs.Block
import StackLift.Proofs.Listing.Walk

/-!
# Listings Are Maximal

A listing shows the longest straight line of instructions at its address.

`Listing.ofRun` packs a run into a block, lines, edges and an exit, and some of
what the run says is only there in another form afterwards: the block keeps
offsets and no addresses, and keeps them as a set from which marks beyond its end
are dropped. `addresses_listing` says that none of this loses anything, because
the offsets grow from one instruction to the next and stay below the length. An
image is smaller than half of the address space, so this holds wherever the block
lies, also when its addresses wrap around.

The rest is the walk behind the listing. Nothing stands between two lines, no
line but the last passes control on, and there are two ways for a listing to end:
with an instruction that does, or where nothing can be decoded.

## Main definitions

* `Listing.Transfers`: The last line of a listing passes control on.
* `Listing.RunsOut`: A listing ends where nothing can be decoded.

## Theorems

* `length_listing`, `finish_listing`: How long the block of a listing is.
* `addresses_listing`: The marked addresses are those of the instructions.
* `references_of_getLast?`: The edges are those of the last instruction.
* `xor_transfers_runsOut`: The two ways for a listing to end.
* `listing_maximal`: A listing is the maximal straight line at its address.
-/

namespace StackLift

namespace Listing

/-- The listing ends with an instruction that passes control on, and has the one
    edge of this instruction. -/
def Transfers (r : Revision) (m : Image) (l : Listing) : Prop :=
  l.error = none ∧ (l.exit = some (.branching false) ∨ l.exit = some .returning) ∧
    ∃ x i e, l.lines.getLast? = some x ∧ r.decodeAt m x.address = .ok i ∧
      r.references i = [e] ∧ l.references = [e]

/-- The listing ends because nothing can be decoded behind it, and the error says
    why. No instruction passes control on, so there are no edges. -/
def RunsOut (r : Revision) (m : Image) (l : Listing) : Prop :=
  ∃ e, l.error = some e ∧
    (∀ x ∈ l.lines, ∃ i, r.decodeAt m x.address = .ok i ∧ i.flow = .normal) ∧
    l.references = [] ∧ l.exit = (if l.lines = [] then none else some .normal) ∧
    r.decodeAt m l.block.finish = .error e

end Listing

namespace Revision

variable {r : Revision} {m : Image} {a : UInt64} {i : Instruction}

theorem start_listing (r : Revision) (m : Image) (a : UInt64) : (r.listing m a).block.start = a :=
  Block.start_markAll _ _

theorem length_listing (r : Revision) (m : Image) (a : UInt64) :
    (r.listing m a).block.length = UInt64.ofNat (r.straightLine m a).size := by
  have hlast := (walk_straightLine r m a).next_getLast?
  rw [listing, Listing.ofRun, Block.length_markAll]
  simp only [hlast, UInt64.add_comm a, UInt64.add_sub_cancel]

theorem toNat_length_listing (r : Revision) (m : Image) (a : UInt64) :
    (r.listing m a).block.length.toNat = (r.straightLine m a).size := by
  have hlt := (walk_straightLine r m a).size_lt
  rw [length_listing, UInt64.toNat_ofNat']
  omega

theorem finish_listing (r : Revision) (m : Image) (a : UInt64) :
    (r.listing m a).block.finish = a + UInt64.ofNat (r.straightLine m a).size := by
  rw [Block.finish, start_listing, length_listing]

theorem toList_offsets_listing (r : Revision) (m : Image) (a : UInt64) :
    (r.listing m a).block.offsets.toList =
      (r.straightLine m a).instructions.map (·.address - a) := by
  have hwalk := walk_straightLine r m a
  rw [listing, Listing.ofRun]
  -- The offsets grow, and the last of them is below the length.
  refine Block.toList_offsets_markAll (List.pairwise_iff_getElem.mpr ?_) ?_
  · intro j k hj hk hjk
    rw [List.length_map] at hj hk
    rw [List.getElem_map, List.getElem_map, UInt64.lt_iff_toNat_lt, hwalk.toNat_address_sub hj,
      hwalk.toNat_address_sub hk]
    exact Run.offset_lt_offset hjk (Nat.le_of_lt hk)
  · intro o ho
    rcases List.mem_iff_getElem.mp ho with ⟨k, hk, rfl⟩
    rw [List.length_map] at hk
    have hlt := Run.offset_lt_size hk
    have hsize := hwalk.size_lt
    rw [List.getElem_map, UInt64.lt_iff_toNat_lt, hwalk.toNat_address_sub hk,
      hwalk.next_getLast?, UInt64.add_comm, UInt64.add_sub_cancel, UInt64.toNat_ofNat']
    omega

/-- The marked addresses are those of the instructions, in their order. -/
theorem addresses_listing (r : Revision) (m : Image) (a : UInt64) :
    (r.listing m a).block.addresses = (r.straightLine m a).instructions.map (·.address) := by
  rw [Block.addresses, toList_offsets_listing, start_listing, List.map_map]
  refine List.map_congr_left ?_
  intro i _
  rw [Function.comp_apply, UInt64.add_comm, UInt64.sub_add_cancel]

theorem references_of_normal (h : i.flow = .normal) : r.references i = [] := by
  unfold Instruction.flow at h
  unfold references
  split at h <;> first | contradiction | simp only [*]

/-- The edges of a listing are those of the last instruction. -/
theorem references_of_getLast? (h : (r.straightLine m a).instructions.getLast? = some i) :
    (r.listing m a).references = r.references i := by
  rcases List.getLast?_eq_some_iff.mp h with ⟨init, hinit⟩
  -- The instructions before the last have no edges.
  have hnormal : init.flatMap r.references = [] := by
    refine List.flatMap_eq_nil_iff.mpr ?_
    intro j hj
    refine references_of_normal ((walk_straightLine r m a).flow_of_mem_dropLast ?_)
    rw [hinit, List.dropLast_concat]
    exact hj
  rw [listing, Listing.ofRun]
  simp only [hinit, List.flatMap_append, hnormal, List.nil_append, List.flatMap_singleton]

theorem lines_listing (r : Revision) (m : Image) (a : UInt64) :
    ∃ label : Instruction → Option String, (r.listing m a).lines =
      (r.straightLine m a).instructions.map fun i => .ofInstruction (label i) i :=
  ⟨_, rfl⟩

theorem lines_eq_nil_iff (r : Revision) (m : Image) (a : UInt64) :
    (r.listing m a).lines = [] ↔ (r.straightLine m a).instructions = [] := List.map_eq_nil_iff

theorem length_lines (r : Revision) (m : Image) (a : UInt64) :
    (r.listing m a).lines.length = (r.straightLine m a).instructions.length := List.length_map _

/-- A line of a listing shows the instruction that is decoded at its address. -/
theorem decodeAt_of_mem_lines {x : Line} (hx : x ∈ (r.listing m a).lines) :
    ∃ i ∈ (r.straightLine m a).instructions, r.decodeAt m x.address = .ok i ∧
      x.tokens = i.tokens ∧ x.encoding = i.encoding := by
  rcases lines_listing r m a with ⟨label, hlines⟩
  rw [hlines] at hx
  rcases List.mem_map.mp hx with ⟨i, hi, rfl⟩
  exact ⟨i, hi, (walk_straightLine r m a).decodeAt_of_mem hi, rfl, rfl⟩

theorem map_address_lines (r : Revision) (m : Image) (a : UInt64) :
    (r.listing m a).lines.map Line.address =
      (r.straightLine m a).instructions.map Instruction.address := by
  rw [listing, Listing.ofRun, List.map_map]
  rfl

theorem map_encoding_lines (r : Revision) (m : Image) (a : UInt64) :
    (r.listing m a).lines.map Line.encoding =
      (r.straightLine m a).instructions.map Instruction.encoding := by
  rw [listing, Listing.ofRun, List.map_map]
  rfl

/-- The encodings are as long as the instructions. -/
theorem sum_length_encodings (r : Revision) (m : Image) (a : UInt64) (k : Nat) :
    (((r.listing m a).lines.take k).map (·.encoding.length)).sum =
      (r.straightLine m a).offset k := by
  have hlength : ∀ i ∈ (r.straightLine m a).instructions.take k, i.encoding.length = i.length := by
    intro i hi
    exact length_encoding ((walk_straightLine r m a).decodeAt_of_mem (List.mem_of_mem_take hi))
  -- A line has lost its instruction, but not the bytes.
  have hmap : ((r.listing m a).lines.take k).map (·.encoding.length) =
      (((r.listing m a).lines.map Line.encoding).take k).map List.length := by
    rw [← List.map_take, List.map_map]
    rfl
  rw [hmap, map_encoding_lines, ← List.map_take, List.map_map, Run.offset]
  exact congrArg List.sum (List.map_congr_left hlength)

theorem exit_listing (r : Revision) (m : Image) (a : UInt64) :
    (r.listing m a).exit = (r.straightLine m a).instructions.getLast?.map Instruction.flow := rfl

/-- An instruction that ends its block branches away for good or leaves the
    procedure, and has one edge. -/
theorem transfers_of_not_staysInBlock (h : i.flow.staysInBlock = false) :
    (i.flow = .branching false ∨ i.flow = .returning) ∧ ∃ e, r.references i = [e] := by
  unfold Instruction.flow at h ⊢
  unfold references
  cases hcat : i.category with
  | unconditionalBranch => exact ⟨Or.inl rfl, _, rfl⟩
  | ret => exact ⟨Or.inr rfl, _, rfl⟩
  | _ =>
      rw [hcat] at h
      contradiction

theorem transfers_of_error_eq_none (he : (r.straightLine m a).error = none) :
    (r.listing m a).Transfers r m := by
  have hwalk := walk_straightLine r m a
  rcases lines_listing r m a with ⟨label, hlines⟩
  rcases hwalk.of_error_eq_none he with ⟨i, hi, hs⟩
  rcases transfers_of_not_staysInBlock (r := r) hs with ⟨hflow, e, href⟩
  have hlast : (r.listing m a).lines.getLast? = some (.ofInstruction (label i) i) := by
    rw [hlines, List.getLast?_map, hi, Option.map_some]
  refine ⟨he, ?_, _, i, e, hlast, hwalk.decodeAt_of_mem (List.mem_of_getLast? hi), href, ?_⟩
  · rw [exit_listing, hi, Option.map_some, Option.some.injEq, Option.some.injEq]
    exact hflow
  · rw [references_of_getLast? hi, href]

theorem runsOut_of_error_eq_some {e : DecodeError} (he : (r.straightLine m a).error = some e) :
    (r.listing m a).RunsOut r m := by
  rcases (walk_straightLine r m a).of_error_eq_some he with ⟨hnormal, hbehind⟩
  refine ⟨e, he, ?_, List.flatMap_eq_nil_iff.mpr ?_, ?_, ?_⟩
  · intro x hx
    rcases decodeAt_of_mem_lines hx with ⟨i, hi, hdecode, _, _⟩
    exact ⟨i, hdecode, hnormal i hi⟩
  · intro i hi
    exact references_of_normal (hnormal i hi)
  · rw [exit_listing]
    by_cases hnil : (r.straightLine m a).instructions = []
    · rw [if_pos ((lines_eq_nil_iff r m a).mpr hnil), hnil]
      rfl
    · rw [if_neg (mt (lines_eq_nil_iff r m a).mp hnil), List.getLast?_eq_some_getLast hnil,
        Option.map_some, hnormal _ (List.getLast_mem hnil)]
  · rw [finish_listing]
    exact hbehind

/-- A listing ends in exactly one of two ways: the error tells them apart. -/
theorem xor_transfers_runsOut (r : Revision) (m : Image) (a : UInt64) :
    Xor ((r.listing m a).Transfers r m) ((r.listing m a).RunsOut r m) := by
  cases he : (r.straightLine m a).error with
  | none =>
      refine Or.inl ⟨transfers_of_error_eq_none he, ?_⟩
      intro hparts
      rcases hparts with ⟨e, he', _⟩
      cases he.symm.trans he'
  | some e =>
      refine Or.inr ⟨runsOut_of_error_eq_some he, ?_⟩
      intro hparts
      rcases hparts with ⟨he', _⟩
      cases he.symm.trans he'

/-- A listing is the maximal straight line of instructions at its address. The
    lines stand one behind the other, their bytes are those of the image, and all
    of them but the last stay in the block. The block has the length of these
    bytes and just the addresses of the lines as its marks. And the listing ends
    in exactly one of two ways, with an instruction that passes control on or
    where nothing can be decoded. -/
theorem listing_maximal (r : Revision) (m : Image) (a : UInt64) :
    let l := r.listing m a
    (∀ k x, l.lines[k]? = some x →
      x.address = a + UInt64.ofNat ((l.lines.take k).map (·.encoding.length)).sum ∧
      ∃ i, r.decodeAt m x.address = .ok i ∧ x.tokens = i.tokens ∧ x.encoding = i.encoding) ∧
    (l.lines.flatMap Line.encoding).length = l.block.length.toNat ∧
    (l.lines ≠ [] → m.retrieve? a l.block.length.toNat = some (l.lines.flatMap Line.encoding)) ∧
    l.block.addresses = l.lines.map Line.address ∧
    l.block.finish =
      (l.lines.getLast?.map fun x => x.address + UInt64.ofNat x.encoding.length).getD a ∧
    (∀ x ∈ l.lines.dropLast, ∃ i, r.decodeAt m x.address = .ok i ∧ i.flow = .normal) ∧
    Xor (l.Transfers r m) (l.RunsOut r m) := by
  intro l
  have hwalk := walk_straightLine r m a
  rcases lines_listing r m a with ⟨label, hlines⟩
  have hflat : l.lines.flatMap Line.encoding =
      (r.straightLine m a).instructions.flatMap Instruction.encoding := by
    rw [List.flatMap_def, List.flatMap_def, map_encoding_lines]
  refine ⟨?_, ?_, ?_, ?_, ?_, ?_, ?_⟩
  · -- A line is where its instruction is.
    intro k x hx
    rcases decodeAt_of_mem_lines (List.mem_of_getElem? hx) with ⟨i, _, hi⟩
    refine ⟨?_, i, hi⟩
    rw [sum_length_encodings]
    rw [hlines, List.getElem?_map, Option.map_eq_some_iff] at hx
    rcases hx with ⟨j, hj, rfl⟩
    rcases List.getElem?_eq_some_iff.mp hj with ⟨hk, rfl⟩
    exact hwalk.address_getElem hk
  · rw [hflat, toNat_length_listing]
    exact hwalk.length_encodings
  · intro hne
    rw [hflat, toNat_length_listing]
    exact hwalk.retrieve?_encodings (mt (lines_eq_nil_iff r m a).mpr hne)
  · rw [addresses_listing, map_address_lines]
  · -- The address behind the last line is the one behind the last instruction.
    rw [finish_listing, ← hwalk.next_getLast?, hlines, List.getLast?_map, Option.map_map]
    cases hi : (r.straightLine m a).instructions.getLast? with
    | none => rfl
    | some i =>
        have hlength := length_encoding (hwalk.decodeAt_of_mem (List.mem_of_getLast? hi))
        rw [Option.map_some, Option.map_some, Option.getD_some, Option.getD_some,
          Function.comp_apply, Line.ofInstruction, hlength, Instruction.next]
  · -- Dropping the last line drops the last instruction.
    intro x hx
    rw [hlines, ← List.map_dropLast] at hx
    rcases List.mem_map.mp hx with ⟨i, hi, rfl⟩
    exact ⟨i, hwalk.decodeAt_of_mem ((List.dropLast_subset _ hi)), hwalk.flow_of_mem_dropLast hi⟩
  · exact xor_transfers_runsOut r m a

end Revision

end StackLift
