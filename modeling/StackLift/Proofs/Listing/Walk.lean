import StackLift.Proofs.Listing.Decode

/-!
# Straight Lines

The walk behind a listing as a derivation.

`straightLine` recurses on what is left of the image, and what it gives is put
together on the way back. `Walk` says the same from the front: nothing is decoded
at the address, or one instruction that ends the run, or one that does not and a
walk from the address behind it. Everything about a run is proved by induction
on that. The run covers the image without a gap, since an instruction starts
just where the one before it ends, and it stops for one of two reasons only.

The bytes are where an induction over addresses alone would not go through: an
instruction may reach across the last address of the address space. Then nothing
is decoded behind it, because an image does not wrap around.

## Main definitions

* `Run.offset`, `Run.size`: How many bytes come before an instruction, and how
  many there are.
* `Revision.Walk`: A run from an address, seen from the front.

## Theorems

* `walk_straightLine`: The instructions from an address on are a walk.
* `eq_of_walk`: There is no other walk from there.
* `mem_of_decodeAt`, `instructions_eq_nil_iff`: What a walk begins with.
* `decodeAt_of_mem`: The instructions of a walk are those at their addresses.
* `address_getElem`: Where the instructions of a walk stand.
* `next_getLast?`: Where a walk ends.
* `retrieve?_encodings`: The bytes of a walk are those of the image.
* `toNat_address_sub`: How far an instruction is from the start of a walk.
* `address_add_not_mem`, `size_add_not_mem`: Where no instruction of a walk starts.
* `flow_of_mem_dropLast`: Only the last instruction of a walk may end it.
* `of_error_eq_none`, `of_error_eq_some`: The two reasons why a walk ends.
* `drop`: A walk from one of its instructions on.
* `map`, `isPrefix`: A walk and what is decoded in another image.
-/

namespace StackLift

namespace Run

variable {run : Run} {j k : Nat}

/-- The number of bytes before the instruction at a position. -/
def offset (run : Run) (k : Nat) : Nat := ((run.instructions.take k).map Instruction.length).sum

/-- The number of bytes. -/
def size (run : Run) : Nat := (run.instructions.map Instruction.length).sum

theorem offset_succ (hk : k < run.instructions.length) :
    run.offset (k + 1) = run.offset k + run.instructions[k].length := by
  rw [offset, List.take_succ_eq_append_getElem hk, List.map_append, List.sum_append_nat, offset,
    List.map_singleton, List.sum_singleton]

theorem offset_length (run : Run) : run.offset run.instructions.length = run.size := by
  rw [offset, List.take_length, size]

theorem offset_lt_offset (hjk : j < k) (hk : k ≤ run.instructions.length) :
    run.offset j < run.offset k := by
  -- No instruction is empty, so each puts the next one further behind.
  induction k with
  | zero => omega
  | succ k ih =>
      have hpos : 0 < run.instructions[k].length := Opcode.length_pos _
      rw [offset_succ hk]
      rcases Nat.lt_succ_iff_lt_or_eq.mp hjk with hlt | rfl
      · have := ih hlt (by omega)
        omega
      · omega

theorem offset_le_offset (hjk : j ≤ k) (hk : k ≤ run.instructions.length) :
    run.offset j ≤ run.offset k := by
  rcases Nat.lt_or_eq_of_le hjk with hlt | rfl
  · exact Nat.le_of_lt (offset_lt_offset hlt hk)
  · exact Nat.le_refl _

theorem offset_lt_size (hk : k < run.instructions.length) : run.offset k < run.size := by
  rw [← offset_length]
  exact offset_lt_offset hk (Nat.le_refl _)

theorem add_size_cons (i : Instruction) (rest : Run) :
    i.address + UInt64.ofNat (size ⟨i :: rest.instructions, rest.error⟩) =
      i.next + UInt64.ofNat rest.size := by
  rw [size, size, List.map_cons, List.sum_cons, UInt64.ofNat_add, ← UInt64.add_assoc,
    Instruction.next]

end Run

theorem Flow.eq_normal_of_staysInBlock {f : Flow} (h : f.staysInBlock = true) : f = .normal := by
  cases f with
  | normal => rfl
  | branching _ => contradiction
  | returning => contradiction

namespace Revision

/-- A run from an address: nothing is decoded there, or an instruction that ends
    it, or an instruction that does not and a run from the address behind. -/
inductive Walk (r : Revision) (m : Image) : UInt64 → Run → Prop where
  /-- Nothing is decoded. -/
  | stop {a : UInt64} {e : DecodeError} (hi : r.decodeAt m a = .error e) : Walk r m a ⟨[], some e⟩
  /-- The instruction ends the run. -/
  | last {a : UInt64} {i : Instruction} (hi : r.decodeAt m a = .ok i)
      (hs : i.flow.staysInBlock = false) : Walk r m a ⟨[i], none⟩
  /-- The instruction does not end the run. -/
  | step {a : UInt64} {i : Instruction} {rest : Run} (hi : r.decodeAt m a = .ok i)
      (hs : i.flow.staysInBlock = true) (hrest : Walk r m i.next rest) :
      Walk r m a ⟨i :: rest.instructions, rest.error⟩

variable {r : Revision} {m m' : Image} {a : UInt64} {i : Instruction} {run run' : Run}

/-- The instructions from an address on are a walk. -/
theorem walk_straightLine (r : Revision) (m : Image) (a : UInt64) :
    Walk r m a (r.straightLine m a) := by
  induction a using straightLine.induct (r := r) (m := m) with
  | case1 a e he =>
      unfold straightLine
      split
      · next e' he' =>
          rw [he, Except.error.injEq] at he'
          exact .stop (he' ▸ he)
      · next i hi =>
          rw [he] at hi
          contradiction
  | case2 a i hi hs ih =>
      unfold straightLine
      split
      · next e he =>
          rw [hi] at he
          contradiction
      · next i' hi' =>
          rw [hi, Except.ok.injEq] at hi'
          subst hi'
          rw [if_pos hs]
          exact .step hi hs ih
  | case3 a i hi hs =>
      unfold straightLine
      split
      · next e he =>
          rw [hi] at he
          contradiction
      · next i' hi' =>
          rw [hi, Except.ok.injEq] at hi'
          subst hi'
          rw [if_neg hs]
          exact .last hi (Bool.eq_false_iff.mpr hs)

namespace Walk

/-- There is one walk from an address only. -/
theorem eq_of_walk (h : Walk r m a run) (h' : Walk r m a run') : run = run' := by
  induction h generalizing run' with
  | stop hi =>
      cases h' with
      | stop hi' => rw [Except.error.inj (hi.symm.trans hi')]
      | last hi' _ => cases hi.symm.trans hi'
      | step hi' _ _ => cases hi.symm.trans hi'
  | last hi hs =>
      cases h' with
      | stop hi' => cases hi.symm.trans hi'
      | last hi' _ => rw [Except.ok.inj (hi.symm.trans hi')]
      | step hi' hs' _ =>
          cases hi.symm.trans hi'
          cases hs.symm.trans hs'
  | step hi hs _ ih =>
      cases h' with
      | stop hi' => cases hi.symm.trans hi'
      | last hi' hs' =>
          cases hi.symm.trans hi'
          cases hs.symm.trans hs'
      | step hi' _ hrest' =>
          cases hi.symm.trans hi'
          rw [ih hrest']

/-- The instructions of a walk are those at their addresses. -/
theorem decodeAt_of_mem (h : Walk r m a run) (hmem : i ∈ run.instructions) :
    r.decodeAt m i.address = .ok i := by
  induction h with
  | stop _ => contradiction
  | last hi _ =>
      cases List.mem_singleton.mp hmem
      rw [address_of_decodeAt hi]
      exact hi
  | step hi _ _ ih =>
      rcases List.mem_cons.mp hmem with rfl | hmem
      · rw [address_of_decodeAt hi]
        exact hi
      · exact ih hmem

/-- A walk begins with the instruction at its start. -/
theorem mem_of_decodeAt (h : Walk r m a run) (hi : r.decodeAt m a = .ok i) :
    i ∈ run.instructions := by
  cases h with
  | stop hj => cases hi.symm.trans hj
  | last hj _ =>
      cases hi.symm.trans hj
      exact List.mem_cons_self
  | step hj _ _ =>
      cases hi.symm.trans hj
      exact List.mem_cons_self

/-- There is nothing on a walk where nothing is decoded at its start. -/
theorem instructions_eq_nil_iff (h : Walk r m a run) :
    run.instructions = [] ↔ ∃ e, r.decodeAt m a = .error e := by
  cases h with
  | stop hi => exact ⟨fun _ => ⟨_, hi⟩, fun _ => rfl⟩
  | last hi _ => exact ⟨fun hnil => by contradiction, fun ⟨_, he⟩ => by cases hi.symm.trans he⟩
  | step hi _ _ => exact ⟨fun hnil => by contradiction, fun ⟨_, he⟩ => by cases hi.symm.trans he⟩

/-- An instruction of a walk stands behind all the bytes before it. -/
theorem address_getElem (h : Walk r m a run) {k : Nat} (hk : k < run.instructions.length) :
    run.instructions[k].address = a + UInt64.ofNat (run.offset k) := by
  induction h generalizing k with
  | stop _ => contradiction
  | last hi _ =>
      cases Nat.lt_one_iff.mp hk
      exact (address_of_decodeAt hi).trans (UInt64.add_zero _).symm
  | step hi _ _ ih =>
      cases k with
      | zero => exact (address_of_decodeAt hi).trans (UInt64.add_zero _).symm
      | succ k =>
          rw [List.getElem_cons_succ, ih (Nat.lt_of_succ_lt_succ hk), Run.offset, Run.offset,
            List.take_succ_cons, List.map_cons, List.sum_cons, UInt64.ofNat_add,
            ← UInt64.add_assoc, Instruction.next, address_of_decodeAt hi]

/-- A walk ends behind all its bytes. -/
theorem next_getLast? (h : Walk r m a run) :
    (run.instructions.getLast?.map Instruction.next).getD a = a + UInt64.ofNat run.size := by
  induction h with
  | stop _ => exact (UInt64.add_zero _).symm
  | last hi _ =>
      rw [List.getLast?_singleton, Option.map_some, Option.getD_some, Instruction.next,
        address_of_decodeAt hi]
      rfl
  | @step a i rest hi _ _ ih =>
      -- With nothing behind it, the first instruction is itself the last.
      have hlast : ((i :: rest.instructions).getLast?.map Instruction.next).getD a =
          (rest.instructions.getLast?.map Instruction.next).getD i.next := by
        rw [List.getLast?_cons]
        cases rest.instructions.getLast? with
        | none => rfl
        | some j => rfl
      rw [hlast, ih, ← address_of_decodeAt hi, Run.add_size_cons]

/-- The bytes of a walk, one instruction behind the other, are those of the image
    at its start. -/
theorem retrieve?_encodings (h : Walk r m a run) (hne : run.instructions ≠ []) :
    m.retrieve? a run.size = some (run.instructions.flatMap Instruction.encoding) := by
  -- Along the walk, the bytes of each instruction in front of those of the rest.
  induction h with
  | stop _ => contradiction
  | last hi _ =>
      rw [Run.size, List.map_singleton, List.sum_singleton, List.flatMap_singleton]
      exact retrieve?_of_decodeAt hi
  | @step a i rest hi _ hrest ih =>
      have hfirst := retrieve?_of_decodeAt hi
      rw [Run.size, List.map_cons, List.sum_cons, List.flatMap_cons]
      -- Behind the last instruction there may be no image any more to go on in.
      by_cases hnil : rest.instructions = []
      · rw [hnil, List.map_nil, List.sum_nil, Nat.add_zero, List.flatMap_nil, List.append_nil]
        exact hfirst
      · have hbehind := ih hnil
        rw [Instruction.next, address_of_decodeAt hi] at hbehind
        exact Image.retrieve?_append hfirst hbehind

theorem length_encodings (h : Walk r m a run) :
    (run.instructions.flatMap Instruction.encoding).length = run.size := by
  by_cases hnil : run.instructions = []
  · rw [Run.size, hnil]
    rfl
  · exact Image.length_of_retrieve? (h.retrieve?_encodings hnil)

theorem size_lt (h : Walk r m a run) : run.size < 0x8000000000000000 := by
  by_cases hnil : run.instructions = []
  · rw [Run.size, hnil]
    decide
  · exact Image.lt_of_retrieve? (h.retrieve?_encodings hnil)

/-- As an image is smaller than the address space, the distance of an instruction
    from the start of a walk is the number of bytes before it. -/
theorem toNat_address_sub (h : Walk r m a run) {k : Nat} (hk : k < run.instructions.length) :
    (run.instructions[k].address - a).toNat = run.offset k := by
  have hlt := Run.offset_lt_size hk
  have hsize := h.size_lt
  rw [h.address_getElem hk, UInt64.add_comm, UInt64.add_sub_cancel, UInt64.toNat_ofNat']
  omega

/-- Only at the offset of an instruction does an instruction start. -/
theorem exists_offset_of_mem (h : Walk r m a run) {n : Nat} (hn : n < 2 ^ 64)
    (hmem : a + UInt64.ofNat n ∈ run.instructions.map Instruction.address) :
    ∃ k < run.instructions.length, run.offset k = n := by
  rcases List.mem_map.mp hmem with ⟨i, hi, haddress⟩
  rcases List.mem_iff_getElem.mp hi with ⟨k, hk, rfl⟩
  refine ⟨k, hk, ?_⟩
  rw [← h.toNat_address_sub hk, haddress, UInt64.add_comm, UInt64.add_sub_cancel,
    UInt64.toNat_ofNat', Nat.mod_eq_of_lt hn]

/-- No instruction of a walk starts within another one. -/
theorem address_add_not_mem (h : Walk r m a run) (hi : i ∈ run.instructions) {j : Nat}
    (hpos : 0 < j) (hj : j < i.length) :
    i.address + UInt64.ofNat j ∉ run.instructions.map Instruction.address := by
  intro hmem
  rcases List.mem_iff_getElem.mp hi with ⟨k, hk, rfl⟩
  have hsucc := Run.offset_succ hk
  have hle : run.offset (k + 1) ≤ run.size := by
    rw [← run.offset_length]
    exact Run.offset_le_offset hk (Nat.le_refl _)
  have hsize := h.size_lt
  rw [h.address_getElem hk, UInt64.add_assoc, ← UInt64.ofNat_add] at hmem
  rcases h.exists_offset_of_mem (by omega) hmem with ⟨n, hn, hoffset⟩
  -- Such an instruction would come behind this one and before the next.
  rcases Nat.lt_or_ge k n with hlt | hge
  · have hnext : run.offset (k + 1) ≤ run.offset n := Run.offset_le_offset hlt (Nat.le_of_lt hn)
    omega
  · have hthis : run.offset n ≤ run.offset k := Run.offset_le_offset hge (Nat.le_of_lt hk)
    omega

/-- No instruction of a walk starts behind the end of it. -/
theorem size_add_not_mem (h : Walk r m a run) {j : Nat} (hj : run.size + j < 2 ^ 64) :
    a + UInt64.ofNat (run.size + j) ∉ run.instructions.map Instruction.address := by
  intro hmem
  rcases h.exists_offset_of_mem hj hmem with ⟨n, hn, hoffset⟩
  have := Run.offset_lt_size hn
  omega

/-- Only the last instruction of a walk may pass control on. -/
theorem flow_of_mem_dropLast (h : Walk r m a run) (hmem : i ∈ run.instructions.dropLast) :
    i.flow = .normal := by
  induction h with
  | stop _ => contradiction
  | last _ _ => contradiction
  | @step _ j rest _ hs _ ih =>
      by_cases hnil : rest.instructions = []
      · rw [hnil] at hmem
        contradiction
      · rw [List.dropLast_cons_of_ne_nil hnil, List.mem_cons] at hmem
        rcases hmem with rfl | hmem
        · exact Flow.eq_normal_of_staysInBlock hs
        · exact ih hmem

/-- A walk without an error ends with an instruction that passes control on. -/
theorem of_error_eq_none (h : Walk r m a run) (he : run.error = none) :
    ∃ i, run.instructions.getLast? = some i ∧ i.flow.staysInBlock = false := by
  -- The error is passed on from the back, so the reason is at the end of the walk.
  induction h with
  | stop _ => contradiction
  | @last _ i _ hs => exact ⟨i, rfl, hs⟩
  | step _ _ _ ih =>
      rcases ih he with ⟨i, hi, hs⟩
      rw [List.getLast?_cons, hi]
      exact ⟨i, rfl, hs⟩

/-- A walk with an error has no instruction that passes control on, and the error
    is what decoding says of the address behind it. -/
theorem of_error_eq_some {e : DecodeError} (h : Walk r m a run) (he : run.error = some e) :
    (∀ i ∈ run.instructions, i.flow = .normal) ∧
      r.decodeAt m (a + UInt64.ofNat run.size) = .error e := by
  induction h with
  | @stop a _ hi =>
      cases he
      have hzero : a + UInt64.ofNat 0 = a := UInt64.add_zero a
      refine ⟨fun i hmem => absurd hmem List.not_mem_nil, ?_⟩
      rw [Run.size, List.map_nil, List.sum_nil, hzero]
      exact hi
  | last _ _ => contradiction
  | step hi hs hrest ih =>
      rcases ih he with ⟨hflow, hbehind⟩
      refine ⟨?_, ?_⟩
      · intro j hj
        rcases List.mem_cons.mp hj with rfl | hj
        · exact Flow.eq_normal_of_staysInBlock hs
        · exact hflow j hj
      · rw [← address_of_decodeAt hi, Run.add_size_cons]
        exact hbehind

/-- From any of its instructions on, a walk is the walk from there. -/
theorem drop (h : Walk r m a run) {k : Nat} (hk : k < run.instructions.length) :
    Walk r m run.instructions[k].address ⟨run.instructions.drop k, run.error⟩ := by
  induction h generalizing k with
  | stop _ => contradiction
  | @last a i hi hs =>
      cases Nat.lt_one_iff.mp hk
      have hlast : Walk r m i.address ⟨[i], none⟩ := by
        rw [address_of_decodeAt hi]
        exact .last hi hs
      exact hlast
  | @step a i rest hi hs hrest ih =>
      cases k with
      | zero =>
          have hstep : Walk r m i.address ⟨i :: rest.instructions, rest.error⟩ := by
            rw [address_of_decodeAt hi]
            exact .step hi hs hrest
          exact hstep
      | succ k => exact ih (Nat.lt_of_succ_lt_succ hk)

/-- A walk goes through another image if instructions with the same flow and the same
    length are decoded there, and if it ends for the same reason. -/
theorem map {g : Instruction → Instruction} (h : Walk r m a run)
    (hok : ∀ i ∈ run.instructions, r.decodeAt m' i.address = .ok (g i) ∧
      (g i).flow = i.flow ∧ (g i).next = i.next)
    (herror : ∀ e, run.error = some e →
      r.decodeAt m' (a + UInt64.ofNat run.size) = .error e) :
    Walk r m' a ⟨run.instructions.map g, run.error⟩ := by
  induction h with
  | @stop a e hi =>
      have hzero : a + UInt64.ofNat 0 = a := UInt64.add_zero a
      have hstop := herror e rfl
      rw [Run.size, List.map_nil, List.sum_nil, hzero] at hstop
      exact .stop hstop
  | @last a i hi hs =>
      rcases hok i List.mem_cons_self with ⟨hdecode, hflow, _⟩
      rw [address_of_decodeAt hi] at hdecode
      exact .last hdecode (by rw [hflow, hs])
  | @step a i rest hi hs _ ih =>
      rcases hok i List.mem_cons_self with ⟨hdecode, hflow, hnext⟩
      rw [address_of_decodeAt hi] at hdecode
      -- The rest of the walk ends where the whole of it does.
      have hrest := ih (fun j hj => hok j (List.mem_cons_of_mem i hj)) fun e he => by
        rw [← Run.add_size_cons, address_of_decodeAt hi]
        exact herror e he
      rw [← hnext] at hrest
      exact .step hdecode (by rw [hflow, hs]) hrest

/-- A walk through an image where the instructions of another walk are decoded as well begins
    with them. -/
theorem isPrefix (h : Walk r m a run) (h' : Walk r m' a run')
    (hok : ∀ i ∈ run.instructions, r.decodeAt m' i.address = .ok i) :
    run.instructions <+: run'.instructions := by
  induction h generalizing run' with
  | stop _ => exact List.nil_prefix
  | @last a i hi _ =>
      have hdecode := hok i List.mem_cons_self
      rw [address_of_decodeAt hi] at hdecode
      cases h' with
      | stop hi' => cases hdecode.symm.trans hi'
      | last hi' _ =>
          cases hdecode.symm.trans hi'
          exact List.prefix_refl _
      | step hi' _ _ =>
          cases hdecode.symm.trans hi'
          exact List.prefix_append [i] _
  | @step a i rest hi hs _ ih =>
      have hdecode := hok i List.mem_cons_self
      rw [address_of_decodeAt hi] at hdecode
      cases h' with
      | stop hi' => cases hdecode.symm.trans hi'
      | last hi' hs' =>
          cases hdecode.symm.trans hi'
          cases hs.symm.trans hs'
      | step hi' _ hrest' =>
          cases hdecode.symm.trans hi'
          have hrest := ih hrest' fun j hj => hok j (List.mem_cons_of_mem i hj)
          exact (List.prefix_cons_inj i).mpr hrest

end Walk

end Revision

end StackLift
