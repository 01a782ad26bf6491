import StackLift.Proofs.Execution.CodeMap
import StackLift.Proofs.Execution.Interpreter

/-!
# Blocks Refine Instructions

Executing the blocks of a scan is executing the image, instruction by instruction.

The two have nothing in common but the decoder. One looks blocks up in a map that
was made in advance, by a scan that knows only static targets. The other decodes
wherever it happens to be. They agree because of an invariant of the address at
which the next block would start. Either the scan has reached it, and then the
map has the code of the listing there, or nothing can be decoded there, and then
there is nothing to miss. A block that was executed to its end leads to one of
the two: a jump to a target that its listing names and that the scan has followed
if it lies in the image, and otherwise on to where the listing ran out.

`advance_of_mem` is the step that the rest is an induction on. A block whose
listing has no lines does nothing and leads back to itself, which is as many
instructions as it has lines.

## Main definitions

* `Execution.after`: The state after so many blocks, and how many lines they have.
* `Execution.Sound`: The scan has missed nothing at an address.
* `Execution.Justified`: What goes with an outcome.

## Theorems

* `advance_of_mem`: What executing one block comes to.
* `steps_of_after`: Blocks are as many instructions as they have lines.
* `run_cases`: An execution is a number of blocks, and then one that is the last.
* `justified_run`: An execution ends for the reason that it gives.
* `run_refines_steps`: Executing blocks refines executing instructions.
-/

namespace StackLift

namespace Execution

open Interpreter (steps PassesOn)

/-- The state after so many blocks, and how many lines they have between them,
    unless one before is the last. -/
def after (ls : Listings) (code : UInt64 → Option LiftedBlock) : Nat → State → Option (State × Nat)
  | 0, s => some (s, 0)
  | k + 1, s => match advance code s, ls[s.position]? with
    | (t, none), some l => (after ls code k t).map fun (u, n) => (u, l.lines.length + n)
    | _, _ => none

theorem exists_of_after_succ {ls : Listings} {code : UInt64 → Option LiftedBlock} {k n : Nat}
    {s t : State} (h : after ls code (k + 1) s = some (t, n)) :
    ∃ u l j, advance code s = (u, none) ∧ ls[s.position]? = some l ∧
      after ls code k u = some (t, j) ∧ n = l.lines.length + j := by
  rw [after] at h
  split at h
  · next u l hadv hl =>
      rcases Option.map_eq_some_iff.mp h with ⟨⟨v, j⟩, hafter, heq⟩
      cases heq
      exact ⟨u, l, j, hadv, hl, hafter, rfl⟩
  · contradiction

/-- The scan has missed nothing at an address: there is a listing, or nothing to
    list. -/
def Sound (r : Revision) (m : Image) (entries : List UInt64) (a : UInt64) : Prop :=
  a ∈ r.scan m entries ∨ ∃ e, r.decodeAt m a = .error e

/-- What goes with an outcome. If the bound is reached, so many blocks were
    executed. If there is no code, the scan has lost nothing: nothing can be decoded
    there. If a block has returned, the interpreter is at an instruction of this
    block that returns, after all the lines of the blocks before and all but the
    last of its own, and executing it leaves the same machine. -/
def Justified (r : Revision) (m : Image) (ls : Listings) (code : UInt64 → Option LiftedBlock)
    (limit : Nat) (start : State) : State × Outcome → Prop
  | (t, .stopped a) => t.position = a ∧ ∃ n, after ls code limit start = some (t, n)
  | (t, .noCode a) => t.position = a ∧
    (∃ k n, k < limit ∧ after ls code k start = some (t, n)) ∧
    (∃ e, r.decodeAt m a = .error e) ∧ r.Undecodable m a
  | (t, .returned b) => ∃ k s n l j i u, k < limit ∧
    after ls code k start = some (s, n) ∧ s.position = b ∧ t.position = b ∧
    ls[b]? = some l ∧ l.lines.length = j + 1 ∧ steps r m (n + j) start = some u ∧
    u.position ∈ l.block.addresses ∧ r.decodeAt m u.position = .ok i ∧ i.category = .ret ∧
    Machine.run ((r.lift i : Recorder Unit).run {}).2.statements u.machine = (.ret, t.machine)

/-- An execution is a number of blocks, and then either the bound is reached or the
    next block is the last. -/
theorem run_cases (code : UInt64 → Option LiftedBlock) (ls : Listings)
    (hls : ∀ s t, advance code s = (t, none) → ∃ l, ls[s.position]? = some l) (limit : Nat)
    (s : State) :
    (∃ t n, run code limit s = (t, .stopped t.position) ∧ after ls code limit s = some (t, n)) ∨
    ∃ k u n t o, k < limit ∧ after ls code k s = some (u, n) ∧ advance code u = (t, some o) ∧
      run code limit s = (t, o) := by
  -- Along the bound, for every state that is arrived at.
  induction limit generalizing s with
  | zero => exact Or.inl ⟨s, 0, rfl, rfl⟩
  | succ limit ih =>
      rcases hadv : advance code s with ⟨t, o⟩
      cases o with
      | some o =>
          right
          refine ⟨0, s, 0, t, o, Nat.succ_pos limit, rfl, hadv, ?_⟩
          rw [run, hadv]
      | none =>
          rcases hls s t hadv with ⟨l, hl⟩
          have hafter {k : Nat} {u : State} {n : Nat} (h : after ls code k t = some (u, n)) :
              after ls code (k + 1) s = some (u, l.lines.length + n) := by
            simp only [after, hadv, hl, h, Option.map_some]
          have hrun : run code (limit + 1) s = run code limit t := by
            rw [run, hadv]
          rw [hrun]
          rcases ih t with ⟨u, n, hu, hn⟩ | ⟨k, u, n, v, o, hk, hu, hv, hout⟩
          · exact Or.inl ⟨u, _, hu, hafter hn⟩
          · exact Or.inr ⟨k + 1, u, _, v, o, Nat.succ_lt_succ hk, hafter hu, hv, hout⟩

section Scanned

variable {d : Definition} {r : Revision} {m : Image} {entries : List UInt64}

/-- Jumping from a block that was reached, the scan has missed nothing. -/
theorem sound_of_mem_targets {a t : UInt64} (ha : a ∈ r.scan m entries)
    (ht : t ∈ (r.listing m a).targets) : Sound r m entries t := by
  -- The scan has followed the target, unless it leaves the image.
  by_cases hc : m.contains t = true
  · left
    exact (Revision.mem_scan_iff t).mpr (.target ((Revision.mem_scan_iff a).mp ha) ht hc)
  · right
    exact Revision.undecodable_iff.mp (Or.inl (Bool.not_eq_true _ ▸ hc))

/-- Executing a block that the scan has reached. If there is a next block, the
    interpreter gets to it in as many instructions as the block has lines, and
    nothing is missed there. If there is none, the last line is a return, and the
    interpreter gets to it in one instruction less. -/
theorem advance_of_mem (hr : Revision.ofDefinition d = .ok r) {s : State}
    (hs : s.position ∈ r.scan m entries) :
    let out := advance ((codeMap (r.liftListings m (r.scan m entries)))[·]?) s
    let l := r.listing m s.position
    (out.2 = none ∧ steps r m l.lines.length s = some out.1 ∧ Sound r m entries out.1.position) ∨
    (out.2 = some (.returned s.position) ∧ out.1.position = s.position ∧
      ∃ i k, i.category = .ret ∧ r.decodeAt m i.address = .ok i ∧ i.address ∈ l.block.addresses ∧
        l.lines.length = k + 1 ∧ steps r m k s = some ⟨i.address, out.1.machine⟩) := by
  intro out l
  have hwalk := Revision.walk_straightLine r m s.position
  have hpasses := Interpreter.passesOn_run hr hwalk s.machine
  have hlines : l.lines.length = _ := Revision.length_lines r m s.position
  have hfinish : (r.liftedBlock m s.position).block.finish = _ :=
    Revision.finish_listing r m s.position
  have hcode := Revision.getElem?_codeMap_of_mem hs
  rw [← Revision.statements_liftedBlock] at hpasses
  rcases hrun : Machine.run (r.liftedBlock m s.position).code.statements s.machine with ⟨c, n⟩
  rw [hrun] at hpasses
  rw [hlines]
  cases hpasses with
  | runsOut he hsteps =>
      -- Behind the block nothing can be decoded, whether the scan knows it or not.
      left
      have hout : out = (⟨(r.liftedBlock m s.position).block.finish, n⟩, none) := by
        simp only [out, advance, hcode, hrun]
      rw [hout, hfinish]
      exact ⟨rfl, hsteps, Or.inr ⟨_, (hwalk.of_error_eq_some he).2⟩⟩
  | @branches i t _ hi hcat ht hsteps =>
      -- The target is that of the one edge of the listing, which the scan has seen.
      left
      have hout : out = (⟨t, n⟩, none) := by
        simp only [out, advance, hcode, hrun]
      have htarget : t ∈ (r.listing m s.position).targets := by
        refine List.mem_filterMap.mpr ⟨⟨i.address, r.branchTarget? i, .branch⟩, ?_, ht⟩
        rw [Revision.references_of_getLast? hi, Revision.references, hcat]
        exact List.mem_singleton_self _
      rw [hout]
      exact ⟨rfl, hsteps, sound_of_mem_targets hs htarget⟩
  | @returns i k _ hi hcat hk hsteps =>
      right
      have hout : out = (⟨s.position, n⟩, some (.returned s.position)) := by
        simp only [out, advance, hcode, hrun]
      have hmem := List.mem_of_getLast? hi
      rw [hout]
      refine ⟨rfl, rfl, i, k, hcat, hwalk.decodeAt_of_mem hmem, ?_, hk, hsteps⟩
      rw [Revision.addresses_listing]
      exact List.mem_map_of_mem hmem

theorem advance_of_not_mem {s : State} (hs : s.position ∉ r.scan m entries) :
    advance ((codeMap (r.liftListings m (r.scan m entries)))[·]?) s =
      (s, some (.noCode s.position)) := by
  simp only [advance, Revision.getElem?_codeMap_of_not_mem hs]

theorem mem_of_advance_eq_none {s t : State}
    (h : advance ((codeMap (r.liftListings m (r.scan m entries)))[·]?) s = (t, none)) :
    s.position ∈ r.scan m entries := by
  by_contra hs
  rw [advance_of_not_mem hs] at h
  cases congrArg Prod.snd h

/-- So many blocks are as many instructions as they have lines, and nothing is
    missed behind them. -/
theorem steps_of_after (hr : Revision.ofDefinition d = .ok r) {k : Nat} {s t : State} {n : Nat}
    (hs : Sound r m entries s.position)
    (h : after (r.scan m entries) ((codeMap (r.liftListings m (r.scan m entries)))[·]?) k s =
      some (t, n)) :
    steps r m n s = some t ∧ Sound r m entries t.position := by
  -- Along the blocks, each of which hands on that the scan has missed nothing.
  induction k generalizing s n with
  | zero =>
      cases h
      exact ⟨rfl, hs⟩
  | succ k ih =>
      -- The interpreter goes through this block first, and then through the rest.
      rcases exists_of_after_succ h with ⟨u, l, j, hadv, hl, hafter, rfl⟩
      cases Revision.eq_listing_of_getElem?_scan hl
      have hout := advance_of_mem hr (mem_of_advance_eq_none hadv)
      rw [hadv] at hout
      rcases hout with ⟨_, hsteps, hsound⟩ | ⟨hnone, _⟩
      · rw [Interpreter.steps_add hsteps]
        exact ih hsound hafter
      · contradiction

/-- An execution that starts where the scan has missed nothing ends for the reason
    that it gives. -/
theorem justified_run (hr : Revision.ofDefinition d = .ok r) (limit : Nat) {start : State}
    (hstart : Sound r m entries start.position) :
    Justified r m (r.scan m entries) ((codeMap (r.liftListings m (r.scan m entries)))[·]?) limit
      start (run ((codeMap (r.liftListings m (r.scan m entries)))[·]?) limit start) := by
  have hls : ∀ s t, advance ((codeMap (r.liftListings m (r.scan m entries)))[·]?) s = (t, none) →
      ∃ l, (r.scan m entries)[s.position]? = some l := by
    intro s t hadv
    exact ⟨_, Revision.getElem?_scan_of_mem (mem_of_advance_eq_none hadv)⟩
  rcases run_cases _ _ hls limit start with
    ⟨t, n, hrun, hafter⟩ | ⟨k, s, n, t, o, hk, hafter, hadv, hrun⟩
  · rw [hrun]
    exact ⟨rfl, n, hafter⟩
  · rw [hrun]
    rcases steps_of_after hr hstart hafter with ⟨hsteps, hsound⟩
    by_cases hs : s.position ∈ r.scan m entries
    · -- There is a block, so it is the last because it returns.
      have hout := advance_of_mem hr hs
      rw [hadv] at hout
      rcases hout with ⟨hnone, _⟩ | ⟨hreturned, hpos, i, j, hcat, hi, hmem, hlen, hret⟩
      · contradiction
      · cases hreturned
        refine ⟨k, s, n, _, j, i, ⟨i.address, t.machine⟩, hk, hafter, rfl, hpos,
          Revision.getElem?_scan_of_mem hs, hlen, ?_, hmem, hi, hcat, ?_⟩
        · rw [Interpreter.steps_add hsteps]
          exact hret
        · rw [Revision.run_lift, Recording.statements_addAll]
          exact Revision.run_code_of_ret hcat _
    · -- There is no block, so nothing can be decoded.
      have hno := advance_of_not_mem hs
      cases hno.symm.trans hadv
      have herror := hsound.resolve_left hs
      exact ⟨rfl, ⟨k, n, hk, hafter⟩, herror, Revision.undecodable_iff.mpr herror⟩

end Scanned

/-- Executing the blocks of a scan from its first entry point refines executing the
    image instruction by instruction: after any number of blocks, the state is that
    of the interpreter after as many instructions as these blocks have lines, and
    the execution ends for the reason that it gives. -/
theorem run_refines_steps {d : Definition} {r : Revision} (hr : Revision.ofDefinition d = .ok r)
    (m : Image) (entry : UInt64) (entries : List UInt64) (limit : Nat) (stackTop : UInt64) :
    let ls := r.scan m (entry :: entries)
    let code : UInt64 → Option LiftedBlock := ((codeMap (r.liftListings m ls))[·]?)
    let start : State := ⟨entry, .start r.registers.stackPointer stackTop⟩
    (∀ k s n, after ls code k start = some (s, n) → steps r m n start = some s) ∧
      Justified r m ls code limit start (run code limit start) := by
  intro ls code start
  have hentry : Sound r m (entry :: entries) start.position :=
    Or.inl ((Revision.mem_scan_iff _).mpr (.entry List.mem_cons_self))
  exact ⟨fun k s n h => (steps_of_after hr hentry h).1, justified_run hr limit hentry⟩

/-- A jump to the block behind it, which takes a difference and returns. -/
theorem run_refines_steps_jump : ∃ r,
    Revision.ofDefinition BuiltinRevision.tigress3.definition = .ok r ∧
    let m : Image := ⟨0x1000, #[0xf4, 0x00, 0x00, 0x00, 0x00, 0x42, 0xb3], by decide⟩
    let ls := r.scan m [0x1000, 0x1006]
    let code : UInt64 → Option LiftedBlock := ((codeMap (r.liftListings m ls))[·]?)
    let start : State := ⟨0x1000, .start r.registers.stackPointer 0x7fff0000⟩
    (∀ k s n, after ls code k start = some (s, n) → steps r m n start = some s) ∧
      Justified r m ls code 5 start (run code 5 start) := by
  rcases BuiltinRevision.exists_revision .tigress3 with ⟨r, hr⟩
  exact ⟨r, hr, run_refines_steps hr _ _ _ _ _⟩

end Execution

end StackLift
