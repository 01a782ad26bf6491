import StackLift.Proofs.Machine.Frame
import StackLift.Proofs.Machine.History

/-!
# Values on the Stack

Values that are put onto the stack are taken off in the reverse order, whatever their widths.

A value occupies as many bytes as its width says, possibly none, and there may be so many
values that they fill the address space to the last byte. The stack may well lie across the
address zero. What keeps the values apart is their distance from the top at the outset: the
values on the stack take up the first so many bytes below it, and a further one those that
follow. In terms of addresses this is a matter of wrapping around, in terms of distances it
is an inequality of numbers (`covers_slot_iff`).

`OnStack` says of a machine that it is another one, with values on the stack and with what
was written in the meantime outside of the region that is set aside for them. A push adds a
value, a pop finds the low bytes of the last one, and a write outside of the region disturbs
none. Each is one lemma, and the runs are by induction on the actions.

## Main definitions

* `Machine.Item`: A value and how many of its bytes are put onto the stack.
* `Machine.Below`: The bytes below an address.
* `Machine.popped`: The values that actions take off the stack.
* `Machine.OnStack`: A machine with values on its stack.

## Theorems

* `covers_slot_iff`: Where a value stands.
* `onStack_push`, `onStack_pop`, `onStack_write`: What one action does to the stack.
* `onStack_pushes`, `onStack_pops`: Actions one after the other.
* `popped_performAll`: Values are taken off in the reverse order.
-/

namespace StackLift

namespace Machine

/-- A value for the stack, and how many of its bytes are put there. -/
structure Item where
  width : UInt64
  value : UInt64
deriving DecidableEq, Repr

def Item.push (x : Item) : Action := .push x.width x.value

def Item.pop (x : Item) : Action := .pop x.width

/-- How many bytes values take up. This is a number, as they may fill the address space. -/
def size (xs : List Item) : Nat := (xs.map (·.width.toNat)).sum

/-- The address is one of the `n` below the top. -/
def Below (top : UInt64) (n : Nat) (a : UInt64) : Prop := (top - 1 - a).toNat < n

namespace Action

/-- What a write writes. Neither pushes nor statements count. -/
def write? : Action → Option Access
  | write address width value => some ⟨address, width, value⟩
  | push _ _ | pop _ | setRegister _ _ | eval _ | execute _ => none

/-- The value that a pop takes off the stack. -/
def popped? : Action → Machine → Option UInt64
  | pop width, m => some (m.pop width).1
  | write _ _ _, _ | push _ _, _ | setRegister _ _, _ | eval _, _ | execute _, _ => none

end Action

/-- What the writes among actions write, and the actions without them. -/
def writes (as : List Action) : List Access := as.filterMap Action.write?

def withoutWrites (as : List Action) : List Action := as.filter (·.write?.isNone)

/-- The values that actions one after the other take off the stack. -/
def popped : List Action → Machine → List UInt64
  | [], _ => []
  | x :: xs, m => (x.popped? m).toList ++ popped xs (x.perform m)

/-- Where a value stands that is put onto others. -/
def slot (top : UInt64) (xs : List Item) (x : Item) : Access :=
  ⟨top - UInt64.ofNat (size (x :: xs)), x.width, x.value⟩

/-- The values stand one below the other, and the first of the list is the lowest. -/
def Holds (mem : Memory) (top : UInt64) : List Item → Prop
  | [] => True
  | x :: xs => (∀ a, (slot top xs x).Covers a → mem.cell? a = (slot top xs x).byte? a) ∧
      Holds mem top xs

variable {m k : Machine} {mem mem' : Memory} {n : Nat} {log : List Access} {xs : List Item}
  {x : Item} {top a : UInt64}

section Writes

variable {as : List Action} {b : Action} {w : Access}

theorem perform_of_write? (hb : b.write? = some w) (k : Machine) :
    b.perform k = k.store w.address w.width w.value := by
  cases b with
  | write address width value =>
      cases hb
      rfl
  | _ => contradiction

theorem popped?_of_write? (hb : b.write? = some w) (k : Machine) : b.popped? k = none := by
  cases b with
  | pop width => contradiction
  | _ => rfl

theorem writes_cons_of_write? (hb : b.write? = some w) : writes (b :: as) = [w] ++ writes as :=
  List.filterMap_cons_some hb

theorem writes_cons_of_none (hb : b.write? = none) : writes (b :: as) = writes as :=
  List.filterMap_cons_none hb

theorem withoutWrites_cons_of_write? (hb : b.write? = some w) :
    withoutWrites (b :: as) = withoutWrites as :=
  List.filter_cons_of_neg (by simp only [hb, Option.isNone_some, Bool.false_eq_true,
    not_false_eq_true])

theorem withoutWrites_cons_of_none (hb : b.write? = none) :
    withoutWrites (b :: as) = b :: withoutWrites as :=
  List.filter_cons_of_pos (by simp only [hb, Option.isNone_none])

theorem writes_append (as bs : List Action) : writes (as ++ bs) = writes as ++ writes bs :=
  List.filterMap_append

end Writes

theorem size_cons (x : Item) (xs : List Item) : size (x :: xs) = x.width.toNat + size xs := rfl

theorem size_append (xs ys : List Item) : size (xs ++ ys) = size xs + size ys := by
  rw [size, List.map_append, List.sum_append, size, size]

theorem size_reverse (xs : List Item) : size xs.reverse = size xs := by
  rw [size, List.map_reverse, List.sum_reverse, size]

theorem sub_size_sub (top : UInt64) (x : Item) (xs : List Item) :
    top - UInt64.ofNat (size xs) - x.width = top - UInt64.ofNat (size (x :: xs)) := by
  refine UInt64.toNat_inj.mp ?_
  have htop : top.toNat < 2 ^ 64 := top.toNat_lt
  have hwidth : x.width.toNat < 2 ^ 64 := x.width.toNat_lt
  rw [size_cons]
  simp only [UInt64.toNat_sub, UInt64.toNat_ofNat']
  omega

/-- A value stands behind those that it is put onto, as seen from the top. -/
theorem covers_slot_iff (h : size (x :: xs) ≤ 2 ^ 64) :
    (slot top xs x).Covers a ↔ Below top (size (x :: xs)) a ∧ ¬Below top (size xs) a := by
  have htop : top.toNat < 2 ^ 64 := top.toNat_lt
  have ha : a.toNat < 2 ^ 64 := a.toNat_lt
  -- The distances from either end, modulo 2^64.
  rw [Access.Covers, slot, UInt64.lt_iff_toNat_lt, Below, Below]
  rw [size_cons] at h ⊢
  simp only [UInt64.toNat_sub, UInt64.toNat_ofNat', UInt64.reduceToNat]
  omega

/-- Values on the stack depend on the bytes that they take up. -/
theorem holds_congr (hsize : size xs ≤ 2 ^ 64)
    (heq : ∀ a, Below top (size xs) a → mem'.cell? a = mem.cell? a) (h : Holds mem top xs) :
    Holds mem' top xs := by
  induction xs with
  | nil => trivial
  | cons x xs ih =>
      have hle : size xs ≤ size (x :: xs) := Nat.le_add_left _ _
      refine ⟨fun a ha => ?_, ih (Nat.le_trans hle hsize) (fun a ha => ?_) h.2⟩
      · rw [heq a ((covers_slot_iff hsize).mp ha).1]
        exact h.1 a ha
      · exact heq a (Nat.lt_of_lt_of_le ha hle)

/-- The machine `k` is `m` with values on its stack, the last one at the front, and with what
    was written since. At most `n` bytes below the top of `m` are set aside for values, and the
    accesses in `log` were all outside of them. -/
structure OnStack (m : Machine) (n : Nat) (log : List Access) (xs : List Item) (k : Machine) :
    Prop where
  stackPointer : k.stackPointer = m.stackPointer
  top : k.get m.stackPointer = m.get m.stackPointer - UInt64.ofNat (size xs)
  get : ∀ r, r ≠ m.stackPointer → k.get r = m.get r
  fits : size xs ≤ n
  holds : Holds k.memory (m.get m.stackPointer) xs
  outside : ∀ a, ¬Below (m.get m.stackPointer) n a →
    k.memory.cell? a = (lastByte? log a).or (m.memory.cell? a)

theorem OnStack.refl (m : Machine) (n : Nat) : OnStack m n [] [] m where
  stackPointer := rfl
  top := (UInt64.sub_zero _).symm
  get _ _ := rfl
  fits := Nat.zero_le n
  holds := trivial
  outside _ _ := rfl

/-- A pop takes the last value off, cut to its width. -/
theorem onStack_pop (h : OnStack m n log (x :: xs) k) (hwidth : x.width ≤ 8) :
    (k.pop x.width).1.toNat = x.value.toNat % 2 ^ (8 * x.width.toNat) ∧
      OnStack m n log xs (k.pop x.width).2 := by
  have htop := h.top
  rw [← h.stackPointer] at htop
  refine ⟨?_, h.stackPointer, ?_, fun r hr => ?_, ?_, h.holds.2, h.outside⟩
  · rw [pop, htop, h.stackPointer]
    exact Memory.toNat_load_of_covers hwidth h.holds.1
  · rw [← h.stackPointer, get_pop, htop, ← sub_size_sub, UInt64.sub_add_cancel]
  · rw [(keeps_pop r k _).get (h.stackPointer ▸ hr), h.get r hr]
  · exact Nat.le_trans (Nat.le_add_left _ _) h.fits

section Region

variable (hn : n ≤ 2 ^ 64)
include hn

/-- A write outside of the region disturbs no value. -/
theorem onStack_write (h : OnStack m n log xs k) {b : Action} {w : Access}
    (hb : b.write? = some w) (hw : ∀ a, w.Covers a → ¬Below (m.get m.stackPointer) n a) :
    OnStack m n (log ++ [w]) xs (b.perform k) := by
  rw [perform_of_write? hb]
  have hcell (a : UInt64) : (k.store w.address w.width w.value).memory.cell? a =
      (w.byte? a).or (k.memory.cell? a) := k.memory.cell?_store_access w a
  refine ⟨h.stackPointer, h.top, h.get, h.fits, ?_, fun a ha => ?_⟩
  · refine holds_congr (Nat.le_trans h.fits hn) (fun a ha => ?_) h.holds
    have hcovers : ¬w.Covers a := fun hc => hw a hc (Nat.lt_of_lt_of_le ha h.fits)
    rw [hcell, Access.byte?_of_not_covers hcovers, Option.none_or]
  · rw [hcell, h.outside a ha, lastByte?_append, lastByte?_singleton, Option.or_assoc]

/-- A push adds a value. -/
theorem onStack_push (h : OnStack m n log xs k) (hfits : size (x :: xs) ≤ n) :
    OnStack m n log (x :: xs) (k.push x.width x.value) := by
  have hsize : size (x :: xs) ≤ 2 ^ 64 := Nat.le_trans hfits hn
  have htop : k.get k.stackPointer - x.width =
      m.get m.stackPointer - UInt64.ofNat (size (x :: xs)) := by
    rw [h.stackPointer, h.top, sub_size_sub]
  have hslot : k.accessOfPush x.width x.value = slot (m.get m.stackPointer) xs x := by
    rw [accessOfPush, htop, slot]
  have hcell (a : UInt64) : (k.push x.width x.value).memory.cell? a =
      ((slot (m.get m.stackPointer) xs x).byte? a).or (k.memory.cell? a) := by
    rw [cell?_push, hslot]
  refine ⟨h.stackPointer, ?_, fun r hr => ?_, hfits, ⟨fun a ha => ?_, ?_⟩, fun a ha => ?_⟩
  · rw [← htop, ← h.stackPointer, get_push]
  · rw [(keeps_push r k _ _).get (h.stackPointer ▸ hr), h.get r hr]
  · rw [hcell, Access.byte?_of_covers ha, Option.some_or]
  · -- The values that were there before stand nearer to the top.
    refine holds_congr (Nat.le_trans h.fits hn) (fun a ha => ?_) h.holds
    have hcovers := fun hc => ((covers_slot_iff hsize).mp hc).2 ha
    rw [hcell, Access.byte?_of_not_covers hcovers, Option.none_or]
  · -- The value stands within the region, which leaves what is outside as it was.
    have hcovers := fun hc => ha (Nat.lt_of_lt_of_le ((covers_slot_iff hsize).mp hc).1 hfits)
    rw [hcell, Access.byte?_of_not_covers hcovers, Option.none_or, h.outside a ha]

theorem onStack_pushes {as : List Action} {ys : List Item} (h : OnStack m n log xs k)
    (hfits : size (ys.reverse ++ xs) ≤ n)
    (has : withoutWrites as = ys.map Item.push)
    (hw : ∀ w ∈ writes as, ∀ a, w.Covers a → ¬Below (m.get m.stackPointer) n a) :
    OnStack m n (log ++ writes as) (ys.reverse ++ xs) (performAll as k) := by
  -- Along the actions: what is not a write is the next of the pushes.
  induction as generalizing ys xs log k with
  | nil =>
      rw [List.map_eq_nil_iff.mp has.symm, writes, List.filterMap_nil, List.append_nil]
      exact h
  | cons b as ih =>
      cases hb : b.write? with
      | some w =>
          rw [withoutWrites_cons_of_write? hb] at has
          rw [writes_cons_of_write? hb, ← List.append_assoc]
          rw [writes_cons_of_write? hb, List.singleton_append, List.forall_mem_cons] at hw
          exact ih (onStack_write hn h hb hw.1) hfits has hw.2
      | none =>
          rw [withoutWrites_cons_of_none hb] at has
          rcases List.map_eq_cons_iff.mp has.symm with ⟨y, ys, rfl, rfl, hys⟩
          rw [writes_cons_of_none hb] at hw ⊢
          rw [List.reverse_cons, List.append_assoc, List.singleton_append] at hfits ⊢
          have hy : size (y :: xs) ≤ n := by
            rw [size_append] at hfits
            exact Nat.le_trans (Nat.le_add_left _ _) hfits
          exact ih (onStack_push hn h hy) hfits hys.symm hw

theorem onStack_pops {as : List Action} (h : OnStack m n log xs k)
    (hwidth : ∀ x ∈ xs, x.width ≤ 8)
    (has : withoutWrites as = xs.map Item.pop)
    (hw : ∀ w ∈ writes as, ∀ a, w.Covers a → ¬Below (m.get m.stackPointer) n a) :
    (popped as k).map UInt64.toNat = xs.map (fun x => x.value.toNat % 2 ^ (8 * x.width.toNat)) ∧
      OnStack m n (log ++ writes as) [] (performAll as k) := by
  -- Likewise, and what is not a write takes off the value that is the lowest by then.
  induction as generalizing xs log k with
  | nil =>
      rw [List.map_eq_nil_iff.mp has.symm] at h ⊢
      rw [writes, List.filterMap_nil, List.append_nil]
      exact ⟨rfl, h⟩
  | cons b as ih =>
      cases hb : b.write? with
      | some w =>
          rw [withoutWrites_cons_of_write? hb] at has
          rw [writes_cons_of_write? hb, ← List.append_assoc]
          rw [writes_cons_of_write? hb, List.singleton_append, List.forall_mem_cons] at hw
          rw [popped, popped?_of_write? hb]
          exact ih (onStack_write hn h hb hw.1) hwidth has hw.2
      | none =>
          rw [withoutWrites_cons_of_none hb] at has
          rcases List.map_eq_cons_iff.mp has.symm with ⟨x, xs, rfl, rfl, hxs⟩
          rw [List.forall_mem_cons] at hwidth
          rw [writes_cons_of_none hb] at hw ⊢
          rcases onStack_pop h hwidth.1 with ⟨hvalue, hstep⟩
          rcases ih hstep hwidth.2 hxs.symm hw with ⟨hvalues, hrest⟩
          exact ⟨congrArg₂ List.cons hvalue hvalues, hrest⟩

end Region

/-- Values of at most eight bytes each, which fill the address space at most, are put onto the
    stack and taken off again, with any writes in between that stay out of the bytes below
    the top which the values take up. The values come back in the reverse order, each cut to
    its width. All registers are as they were, the stack pointer included, and outside of
    these bytes there is what was last written, or what was there before. -/
theorem popped_performAll (m : Machine) (xs : List Item) {pushes pops : List Action}
    (hwidth : ∀ x ∈ xs, x.width ≤ 8) (hsize : size xs ≤ 2 ^ 64)
    (hpushes : withoutWrites pushes = xs.map Item.push)
    (hpops : withoutWrites pops = xs.reverse.map Item.pop)
    (hwrites : ∀ w ∈ writes (pushes ++ pops), ∀ a, w.Covers a →
      ¬Below (m.get m.stackPointer) (size xs) a) :
    let k := performAll (pushes ++ pops) m
    (popped pops (performAll pushes m)).map UInt64.toNat =
      xs.reverse.map (fun x => x.value.toNat % 2 ^ (8 * x.width.toNat)) ∧
    k.stackPointer = m.stackPointer ∧ (∀ r, k.get r = m.get r) ∧
    ∀ a, ¬Below (m.get m.stackPointer) (size xs) a → k.memory.cell? a =
      (lastByte? (writes (pushes ++ pops)) a).or (m.memory.cell? a) := by
  intro k
  rw [writes_append, List.forall_mem_append] at hwrites
  have hfits : size (xs.reverse ++ []) ≤ size xs := by rw [List.append_nil, size_reverse]
  have hpushed := onStack_pushes hsize (OnStack.refl m _) hfits hpushes hwrites.1
  rw [List.append_nil, List.nil_append] at hpushed
  have hreverse : ∀ x ∈ xs.reverse, x.width ≤ 8 := fun x hx => hwidth x (List.mem_reverse.mp hx)
  rcases onStack_pops hsize hpushed hreverse hpops hwrites.2 with ⟨hvalues, hpopped⟩
  -- With nothing left on the stack, the top is back at the outset.
  rw [← performAll_append, ← writes_append] at hpopped
  refine ⟨hvalues, hpopped.stackPointer, fun r => ?_, hpopped.outside⟩
  by_cases hr : r = m.stackPointer
  · rw [hr]
    exact hpopped.top.trans (UInt64.sub_zero _)
  · exact hpopped.get r hr

/-- Three values, one of them without any bytes, on a stack that lies across the address zero,
    and a write next to it on either side. -/
theorem popped_performAll_wrapped :
    let m := start .vreg 4
    let pushes : List Action := [.push 8 0x1122334455667788, .write 4 2 0xffff, .push 0 7,
      .push 3 0xaabbccdd]
    let pops : List Action := [.pop 3, .write 0xfffffffffffffff8 1 5, .pop 0, .pop 8]
    (popped pops (performAll pushes m)).map UInt64.toNat = [0xbbccdd, 0, 0x1122334455667788] ∧
      ∀ r, (performAll (pushes ++ pops) m).get r = m.get r := by
  intro m pushes pops
  have hwrites : ∀ w ∈ writes (pushes ++ pops), ∀ a, w.Covers a →
      ¬Below (m.get m.stackPointer) 11 a := by
    have hlist : writes (pushes ++ pops) = [⟨4, 2, 0xffff⟩, ⟨0xfffffffffffffff8, 1, 5⟩] := rfl
    have htop : m.get m.stackPointer = 4 := rfl
    rw [hlist, htop]
    intro w hw a ha
    have hlt : a.toNat < 2 ^ 64 := a.toNat_lt
    rw [Access.Covers, UInt64.lt_iff_toNat_lt, UInt64.toNat_sub] at ha
    simp only [Below, UInt64.toNat_sub, UInt64.reduceToNat]
    rcases List.mem_cons.mp hw with rfl | hw
    · simp only [UInt64.reduceToNat] at ha
      omega
    · rw [List.mem_singleton.mp hw] at ha
      simp only [UInt64.reduceToNat] at ha
      omega
  rcases popped_performAll m [⟨8, 0x1122334455667788⟩, ⟨0, 7⟩, ⟨3, 0xaabbccdd⟩] (by decide)
    (by decide) rfl rfl hwrites with ⟨hvalues, _, hget, _⟩
  exact ⟨hvalues, hget⟩

end Machine

end StackLift
