import StackLift.Proofs.Lift.Block

/-!
# Overlapping Listings

Two listings that meet in an instruction are the same from there on.

A walk takes nothing along from one instruction to the next but the address. The listing of
a walk, however, is made with the start in hand. The label is put where an address is the
start, the marks are offsets from it, and the length of the block is measured from there.
So what has to be shown is that none of this tells one start from the other behind the
place where the two listings meet. The start is met once, since the instructions of a walk
all stand at different addresses, and the end is the address behind the last instruction,
which both have in common.

For the code the marks are decoded once more, each by itself. A listing that begins further
behind has the marks of the lines that it shows and no others, and so the code of these
lines.

## Theorems

* `lines_eq_cons`: Only the first line has a label.
* `finish_eq_next`: A listing ends behind its last instruction.
* `filter_entries_recording`: The code of the instructions behind others.
* `straightLine_of_getElem?`: The instructions from an instruction on.
* `listing_of_line`: The listing at a line of another listing.
-/

namespace StackLift

namespace Revision

variable {r : Revision} {m : Image} {a : UInt64} {i : Instruction} {is : List Instruction} {k : Nat}

/-- The instructions of a listing stand at different addresses. -/
theorem nodup_map_address (r : Revision) (m : Image) (a : UInt64) :
    ((r.straightLine m a).instructions.map Instruction.address).Nodup := by
  rw [← addresses_listing]
  exact Block.nodup_addresses _

/-- Only the first line of a listing has a label, and it is the name of the start. -/
theorem lines_eq_cons (h : (r.straightLine m a).instructions = i :: is) :
    (r.listing m a).lines =
      .ofInstruction (some (locationLabel a)) i :: is.map (Line.ofInstruction none) := by
  have hstart : i.address = a := by
    have hk : 0 < (r.straightLine m a).instructions.length := by
      rw [h]
      exact Nat.succ_pos _
    have haddress := (walk_straightLine r m a).address_getElem hk
    simp only [h, List.getElem_cons_zero] at haddress
    exact haddress.trans (UInt64.add_zero a)
  -- No other instruction stands at the start.
  have hnodup := nodup_map_address r m a
  rw [h, List.map_cons, List.nodup_cons, hstart] at hnodup
  have hlines : (r.listing m a).lines = (r.straightLine m a).instructions.map fun j =>
      .ofInstruction (if j.address = a then some (locationLabel a) else none) j := rfl
  rw [hlines, h, List.map_cons, if_pos hstart, List.cons.injEq]
  refine ⟨rfl, List.map_congr_left ?_⟩
  intro j hj
  have hne : j.address ≠ a := by
    intro heq
    exact hnodup.1 (heq ▸ List.mem_map_of_mem hj)
  rw [if_neg hne]

/-- Behind the first line there are no labels. -/
theorem drop_lines (r : Revision) (m : Image) (a : UInt64) (k : Nat) :
    (r.listing m a).lines.drop (k + 1) =
      ((r.straightLine m a).instructions.drop (k + 1)).map (Line.ofInstruction none) := by
  cases h : (r.straightLine m a).instructions with
  | nil =>
      rw [(lines_eq_nil_iff r m a).mpr h]
      rfl
  | cons i is => rw [lines_eq_cons h, List.drop_succ_cons, List.drop_succ_cons, List.map_drop]

/-- A listing ends behind its last instruction. -/
theorem finish_eq_next (h : (r.straightLine m a).instructions.getLast? = some i) :
    (r.listing m a).block.finish = i.next := by
  rw [finish_listing, ← (walk_straightLine r m a).next_getLast?, h]
  rfl

theorem mem_map_address_of_mem_entries {entry : UInt64 × Statement}
    (h : entry ∈ (r.recording is).entries.toList) : entry.1 ∈ is.map Instruction.address := by
  rw [toList_entries_recording] at h
  rcases List.mem_flatMap.mp h with ⟨i, hi, hs⟩
  rcases List.mem_map.mp hs with ⟨s, _, rfl⟩
  exact List.mem_map_of_mem hi

/-- Of the code of instructions one after the other, the part that has the addresses of those
    behind is their code, if no address is among those in front as well. -/
theorem filter_entries_recording (r : Revision) (js is : List Instruction)
    (hdisjoint : (js.map Instruction.address).Disjoint (is.map Instruction.address)) :
    ((r.recording (js ++ is)).entries.toList.filter fun entry =>
      entry.1 ∈ is.map Instruction.address) = (r.recording is).entries.toList := by
  have hentries : (r.recording (js ++ is)).entries.toList =
      (r.recording js).entries.toList ++ (r.recording is).entries.toList := by
    rw [toList_entries_recording, List.flatMap_append, ← toList_entries_recording,
      ← toList_entries_recording]
  -- Nothing in front passes, and everything behind does.
  have hfront : (r.recording js).entries.toList.filter (fun entry =>
      entry.1 ∈ is.map Instruction.address) = [] := by
    refine List.filter_eq_nil_iff.mpr ?_
    intro entry hentry
    rw [decide_eq_true_eq]
    exact hdisjoint (mem_map_address_of_mem_entries hentry)
  have hbehind : (r.recording is).entries.toList.filter (fun entry =>
      entry.1 ∈ is.map Instruction.address) = (r.recording is).entries.toList := by
    refine List.filter_eq_self.mpr ?_
    intro entry hentry
    rw [decide_eq_true_eq]
    exact mem_map_address_of_mem_entries hentry
  rw [hentries, List.filter_append, hfront, hbehind, List.nil_append]

section Instruction

/-- From an instruction on there are just the instructions that follow it. -/
theorem straightLine_of_getElem? (hi : (r.straightLine m a).instructions[k]? = some i) :
    r.straightLine m i.address =
      ⟨(r.straightLine m a).instructions.drop k, (r.straightLine m a).error⟩ := by
  rcases List.getElem?_eq_some_iff.mp hi with ⟨hk, rfl⟩
  exact (walk_straightLine r m _).eq_of_walk ((walk_straightLine r m a).drop hk)

/-- The walk from an instruction on ends with the same instruction. -/
theorem getLast?_of_getElem? (hi : (r.straightLine m a).instructions[k]? = some i) :
    ∃ j, (r.straightLine m a).instructions.getLast? = some j ∧
      (r.straightLine m i.address).instructions.getLast? = some j := by
  rcases List.getElem?_eq_some_iff.mp hi with ⟨hk, _⟩
  have hne := List.ne_nil_of_length_pos (Nat.zero_lt_of_lt hk)
  refine ⟨_, List.getLast?_eq_some_getLast hne, ?_⟩
  rw [straightLine_of_getElem? hi, List.getLast?_drop, if_neg (Nat.not_le_of_lt hk),
    List.getLast?_eq_some_getLast hne]

theorem lines_of_getElem? (hi : (r.straightLine m a).instructions[k]? = some i) :
    (r.listing m i.address).lines =
      .ofInstruction (some (locationLabel i.address)) i :: (r.listing m a).lines.drop (k + 1) := by
  rcases List.getElem?_eq_some_iff.mp hi with ⟨hk, hget⟩
  rw [drop_lines]
  refine lines_eq_cons ?_
  rw [straightLine_of_getElem? hi, ← hget]
  exact List.drop_eq_getElem_cons hk

theorem entries_of_getElem? (hi : (r.straightLine m a).instructions[k]? = some i) :
    (r.recording (r.straightLine m i.address).instructions).entries.toList =
      (r.recording (r.straightLine m a).instructions).entries.toList.filter fun entry =>
        entry.1 ∈ ((r.listing m a).lines.drop k).map Line.address := by
  have hsplit := List.take_append_drop k (r.straightLine m a).instructions
  have hnodup := nodup_map_address r m a
  rw [← hsplit, List.map_append] at hnodup
  have hfilter := filter_entries_recording r _ _ (List.disjoint_of_nodup_append hnodup)
  rw [hsplit] at hfilter
  rw [straightLine_of_getElem? hi, List.map_drop, map_address_lines, ← List.map_drop]
  exact hfilter.symm

end Instruction

/-- The listing at a line of another listing shows this line and those behind it, with a
    label at the line and everything else as it was there. It has the same edges, ends in the
    same way and at the same address, and its code is that part of the other's code which
    has the addresses of these lines. -/
theorem listing_of_line (r : Revision) (m : Image) (a : UInt64) {k : Nat} {x : Line}
    (hx : (r.listing m a).lines[k]? = some x) :
    let l := r.listing m a
    let l' := r.listing m x.address
    l'.lines = { x with label := some (locationLabel x.address) } :: l.lines.drop (k + 1) ∧
    l'.references = l.references ∧ l'.exit = l.exit ∧ l'.error = l.error ∧
    l'.block.finish = l.block.finish ∧
    ∃ c c', r.liftBlock m l.block = .ok c ∧ r.liftBlock m l'.block = .ok c' ∧
      c'.entries.toList =
        c.entries.toList.filter fun entry => entry.1 ∈ (l.lines.drop k).map Line.address := by
  intro l l'
  -- The line shows an instruction of the walk, and the other walk starts at it.
  rcases lines_listing r m a with ⟨label, hlines⟩
  rw [hlines, List.getElem?_map, Option.map_eq_some_iff] at hx
  rcases hx with ⟨i, hi, rfl⟩
  rcases getLast?_of_getElem? hi with ⟨j, hlast, hlast'⟩
  have herror := congrArg Run.error (straightLine_of_getElem? hi)
  refine ⟨lines_of_getElem? hi, ?_, ?_, herror, ?_, _, _, liftBlock_listing r m a,
    liftBlock_listing r m _, entries_of_getElem? hi⟩
  · exact (references_of_getLast? hlast').trans (references_of_getLast? hlast).symm
  · exact congrArg (Option.map Instruction.flow) (hlast'.trans hlast.symm)
  · exact (finish_eq_next hlast').trans (finish_eq_next hlast).symm

/-- The second of three lines, where the listing ends at the end of the address space. -/
theorem listing_of_line_second : ∃ r x,
    ofDefinition BuiltinRevision.tigress3.definition = .ok r ∧
    let m : Image := ⟨0xfffffffffffffffd, #[0x4e, 0x0e, 0xb3], by decide⟩
    let l := r.listing m 0xfffffffffffffffd
    let l' := r.listing m x.address
    l.lines[1]? = some x ∧ x.address = 0xfffffffffffffffe ∧ l'.block.finish = 0 ∧
    l'.lines = { x with label := some (locationLabel x.address) } :: l.lines.drop 2 ∧
    l'.references = l.references ∧ l'.exit = l.exit ∧ l'.error = l.error ∧
    l'.block.finish = l.block.finish ∧
    ∃ c c', r.liftBlock m l.block = .ok c ∧ r.liftBlock m l'.block = .ok c' ∧
      c'.entries.toList =
        c.entries.toList.filter fun entry => entry.1 ∈ (l.lines.drop 1).map Line.address := by
  rcases BuiltinRevision.exists_revision .tigress3 with ⟨r, hr⟩
  let m : Image := ⟨0xfffffffffffffffd, #[0x4e, 0x0e, 0xb3], by decide⟩
  let nop : Instruction := ⟨0xfffffffffffffffd, ⟨"nop", .absent, .nop⟩, 0x4e, []⟩
  let sum : Instruction :=
    ⟨0xfffffffffffffffe, ⟨"addq", .absent, .stackBinaryOp .add⟩, 0x0e, []⟩
  let ret : Instruction := ⟨0xffffffffffffffff, ⟨"ret", .absent, .ret⟩, 0xb3, []⟩
  have hnop : r.decodeAt m 0xfffffffffffffffd = .ok nop :=
    decodeAt_of_entryOf? (i := nop) hr (by decide) (by decide)
  have hsum : r.decodeAt m nop.next = .ok sum :=
    decodeAt_of_entryOf? (i := sum) hr (by decide) (by decide)
  have hret : r.decodeAt m sum.next = .ok ret :=
    decodeAt_of_entryOf? (i := ret) hr (by decide) (by decide)
  have hwalk : Walk r m 0xfffffffffffffffd ⟨[nop, sum, ret], none⟩ :=
    .step hnop rfl (.step hsum rfl (.last hret rfl))
  have hrun := (walk_straightLine r m _).eq_of_walk hwalk
  have hx : (r.listing m 0xfffffffffffffffd).lines[1]? = some (.ofInstruction none sum) := by
    rw [lines_eq_cons (congrArg Run.instructions hrun)]
    rfl
  have hmeet := listing_of_line r m 0xfffffffffffffffd hx
  have hfinish : (r.listing m 0xfffffffffffffffd).block.finish = 0 := by
    rw [finish_listing, hrun]
    decide
  exact ⟨r, _, hr, hx, rfl, hmeet.2.2.2.2.1.trans hfinish, hmeet⟩

end Revision

end StackLift
