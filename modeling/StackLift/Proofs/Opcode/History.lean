import StackLift.Proofs.Opcode.Table
import StackLift.Revision.Definition

/-!
# Opcode Tables over Time

A table that is asked to take one opcode after the other and turns some of them down.

A table is two things that have to agree, a list that grows and an index of positions in it.
`Holds` says what they agree on: at each byte stands the position of the opcode that has the
byte. A position is one number, and so no byte can be that of two opcodes. Nothing else about
tables is proved by going through what was done to them, and all that they answer follows.
Opcodes are told apart by their positions throughout and never by what they are, so two that
were entered separately have their own bytes even if they mean the same.

Entering an opcode takes several steps, and it may fail. `Edit.enter` takes them one by one, on
a table that is there in between. It comes to the same as `insert`, because all that can go
wrong is looked for before anything is done.

## Main definitions

* `OpcodeTable.Edit`: What is done to a table step by step.
* `OpcodeTable.Edit.enter`: Entering an opcode.
* `OpcodeTable.after`: The table after some attempts.
* `OpcodeTable.entered`: The opcodes that have been entered in the meantime.
* `OpcodeTable.Holds`: What a table that holds some opcodes looks like.

## Theorems

* `on_enter`: Step by step and in one piece.
* `holds_empty`, `Holds.insert`: What a table holds to begin with and after one opcode more.
* `Holds.after`: What it holds after any number of attempts.
* `Holds.pairwise_disjoint`: No byte belongs to two opcodes.
* `Holds.insert_eq_error_iff_first`: Why an opcode is turned down.
* `Holds.lookup?_eq_some_iff`, `Holds.mem_aliases_iff_entry`: What a table that holds some
  opcodes answers.
* `meaning_of_history`: What a table answers after any number of attempts.
-/

namespace StackLift

namespace OpcodeTable

/-- What is done to a table, and may fail. An edit that fails leaves a table as well, which need
    not be the one it found as far as this type goes. -/
abbrev Edit := ExceptT UInt8 (StateM OpcodeTable)

namespace Edit

/-- The result of an edit or the byte in its way, and the table it leaves. -/
def on {α : Type} (c : Edit α) (t : OpcodeTable) : Except UInt8 α × OpcodeTable := c.run.run t

/-- Assigns a byte to the descriptor at a position. -/
def assign (n : Nat) (b : UInt8) : Edit Unit :=
  modify fun t => { t with slot := fun c => if c = b then some n else t.slot c }

/-- Enters an opcode: looks for a byte that is taken, puts the descriptor behind the others, and
    assigns one byte after the other. -/
def enter (e : OpcodeEntry) : Edit Unit := do
  let t ← get
  if let some b := e.bytes.find? t.isTaken then
    throw b
  set { t with descriptors := t.descriptors ++ [e.opcode] }
  e.bytes.forM (assign t.descriptors.length)

end Edit

/-- The table after some opcodes were to be entered, whether that has succeeded or not. -/
def after (t : OpcodeTable) (es : List OpcodeEntry) : OpcodeTable :=
  es.foldl (fun t e => ((Edit.enter e).on t).2) t

/-- The opcodes that have been entered, the first one first. -/
def entered (t : OpcodeTable) : List OpcodeEntry → List OpcodeEntry
  | [] => []
  | e :: es => match (Edit.enter e).on t with
    | (.ok _, t) => e :: entered t es
    | (.error _, t) => entered t es

/-- The table holds these opcodes and no others. -/
structure Holds (t : OpcodeTable) (es : List OpcodeEntry) : Prop where
  /-- The descriptors are those of the opcodes, in that order. -/
  descriptors : t.descriptors = es.map OpcodeEntry.opcode
  /-- A byte holds the position of the opcode that has the byte. -/
  slot : ∀ b n, t.slot b = some n ↔ ∃ e, es[n]? = some e ∧ b ∈ e.bytes

variable {t u : OpcodeTable} {e : OpcodeEntry} {es : List OpcodeEntry} {b c : UInt8}

theorem on_get_bind {α : Type} (f : OpcodeTable → Edit α) (t : OpcodeTable) :
    Edit.on (MonadState.get >>= f) t = (f t).on t := rfl

theorem on_assign_bind {α : Type} (n : Nat) (b : UInt8) (c : Edit α) (t : OpcodeTable) :
    Edit.on (Edit.assign n b >>= fun _ => c) t =
      c.on { t with slot := fun c => if c = b then some n else t.slot c } := rfl

theorem on_forM_assign (n : Nat) (bytes : List UInt8) (t : OpcodeTable) :
    Edit.on (bytes.forM (Edit.assign n)) t =
      (.ok (), { t with slot := fun b => if b ∈ bytes then some n else t.slot b }) := by
  induction bytes generalizing t with
  | nil =>
      simp only [List.not_mem_nil, if_false]
      rfl
  | cons c bytes ih =>
      have hslot : (fun b => if b ∈ bytes then some n else if b = c then some n else t.slot b) =
          fun b => if b ∈ c :: bytes then some n else t.slot b := by
        funext b
        by_cases hb : b ∈ bytes
        · rw [if_pos hb, if_pos (List.mem_cons_of_mem c hb)]
        · simp only [hb, if_false, List.mem_cons, or_false]
      rw [List.forM, on_assign_bind, ih, ← hslot]

/-- Step by step, entering an opcode comes to what it is said to be in one piece. If it fails,
    nothing has been done to the table yet. -/
theorem on_enter (e : OpcodeEntry) (t : OpcodeTable) :
    (Edit.enter e).on t = match t.insert e.bytes e.opcode with
      | .ok u => (.ok (), u)
      | .error b => (.error b, t) := by
  unfold Edit.enter
  rw [on_get_bind, insert]
  cases e.bytes.find? t.isTaken with
  | some b => rfl
  | none => exact on_forM_assign ..

theorem Holds.isTaken_iff (h : t.Holds es) : t.isTaken b = true ↔ ∃ d ∈ es, b ∈ d.bytes := by
  rw [isTaken, Option.isSome_iff_exists]
  simp only [h.slot]
  constructor
  · rintro ⟨n, d, hd, hb⟩
    exact ⟨d, List.mem_of_getElem? hd, hb⟩
  · rintro ⟨d, hd, hb⟩
    rcases List.mem_iff_getElem?.mp hd with ⟨n, hn⟩
    exact ⟨n, d, hn, hb⟩

theorem holds_empty : (∅ : OpcodeTable).Holds [] where
  descriptors := rfl
  slot b n := by
    simp only [List.getElem?_nil, reduceCtorEq, false_and, exists_false]

/-- A table with a further opcode holds it behind the others. -/
theorem Holds.insert (h : t.Holds es) (hu : t.insert e.bytes e.opcode = .ok u) :
    u.Holds (es ++ [e]) where
  descriptors := by
    rw [descriptors_of_insert_eq_ok hu, h.descriptors, List.map_append, List.map_singleton]
  slot b n := by
    have hlength : t.descriptors.length = es.length := by rw [h.descriptors, List.length_map]
    rw [slot_of_insert_eq_ok hu, hlength]
    by_cases hb : b ∈ e.bytes
    · -- The byte was free, so none of the opcodes before has it.
      have hfree := slot_eq_none_of_insert hu hb
      rw [if_pos hb, Option.some.injEq]
      constructor
      · rintro rfl
        exact ⟨e, List.getElem?_concat_length .., hb⟩
      · rintro ⟨d, hd, hbd⟩
        rcases Nat.lt_or_ge n es.length with hn | hn
        · rw [List.getElem?_append_left hn] at hd
          cases hfree.symm.trans ((h.slot b n).mpr ⟨d, hd, hbd⟩)
        · have hlast := (List.getElem?_eq_some_iff.mp hd).1
          rw [List.length_append, List.length_singleton] at hlast
          omega
    · rw [if_neg hb, h.slot]
      constructor
      · rintro ⟨d, hd, hbd⟩
        have hn := (List.getElem?_eq_some_iff.mp hd).1
        exact ⟨d, (List.getElem?_append_left hn).trans hd, hbd⟩
      · rintro ⟨d, hd, hbd⟩
        rcases Nat.lt_or_ge n es.length with hn | hn
        · exact ⟨d, (List.getElem?_append_left hn).symm.trans hd, hbd⟩
        · rw [List.getElem?_append_right hn] at hd
          have hde := List.mem_singleton.mp (List.mem_of_getElem? hd)
          exact absurd (hde ▸ hbd) hb

/-- After any number of attempts, the table holds the opcodes that it held before and those that
    have been entered in the meantime. -/
theorem Holds.after (h : t.Holds es) (xs : List OpcodeEntry) :
    (t.after xs).Holds (es ++ t.entered xs) := by
  -- Along the attempts, for whatever table the rest of them finds.
  induction xs generalizing t es with
  | nil =>
      rw [entered, List.append_nil]
      exact h
  | cons x xs ih =>
      rw [OpcodeTable.after, List.foldl_cons, ← OpcodeTable.after, entered, on_enter]
      cases hu : t.insert x.bytes x.opcode with
      | error b => exact ih h
      | ok u =>
          rw [List.append_cons]
          exact ih (h.insert hu)

theorem Holds.wellFormed (h : t.Holds es) : t.WellFormed := by
  intro b n hn
  rcases (h.slot b n).mp hn with ⟨d, hd, _⟩
  rw [h.descriptors, List.length_map]
  exact (List.getElem?_eq_some_iff.mp hd).1

/-- No two opcodes share a byte. -/
theorem Holds.pairwise_disjoint (h : t.Holds es) :
    es.Pairwise fun d e => ∀ b ∈ d.bytes, b ∉ e.bytes := by
  rw [List.pairwise_iff_getElem]
  intro i j hi hj hij b hbi hbj
  -- The byte holds one position only.
  have hslot := (h.slot b i).mpr ⟨es[i], List.getElem?_eq_getElem hi, hbi⟩
  rw [(h.slot b j).mpr ⟨es[j], List.getElem?_eq_getElem hj, hbj⟩, Option.some.injEq] at hslot
  omega

theorem Holds.exists_insert_eq_error_iff (h : t.Holds es) :
    (∃ b, t.insert e.bytes e.opcode = .error b) ↔ ∃ b ∈ e.bytes, ∃ d ∈ es, b ∈ d.bytes := by
  simp only [insert_eq_error_iff, ← h.isTaken_iff]
  rw [← Option.isSome_iff_exists, List.find?_isSome]

/-- An opcode is turned down for the first of its bytes that belongs to one in the table. -/
theorem Holds.insert_eq_error_iff_first (h : t.Holds es) :
    t.insert e.bytes e.opcode = .error b ↔
      ∃ before behind, e.bytes = before ++ b :: behind ∧ (∃ d ∈ es, b ∈ d.bytes) ∧
        ∀ c ∈ before, ∀ d ∈ es, c ∉ d.bytes := by
  have hfree (c : UInt8) : (!t.isTaken c) = true ↔ ∀ d ∈ es, c ∉ d.bytes := by
    rw [Bool.not_eq_true', ← Bool.not_eq_true, h.isTaken_iff]
    simp only [not_exists, not_and]
  rw [insert_eq_error_iff, List.find?_eq_some_iff_append, h.isTaken_iff]
  simp only [hfree]
  constructor
  · rintro ⟨htaken, before, behind, hbytes, hbefore⟩
    exact ⟨before, behind, hbytes, htaken, hbefore⟩
  · rintro ⟨before, behind, hbytes, htaken, hbefore⟩
    exact ⟨htaken, before, behind, hbytes, hbefore⟩

/-- Going from a byte to its position and on to the opcode there leads to the opcode that has the
    byte. -/
theorem Holds.exists_slot_iff (h : t.Holds es) {p : OpcodeEntry → Prop} :
    (∃ n, t.slot b = some n ∧ ∃ d, es[n]? = some d ∧ p d) ↔ ∃ d ∈ es, b ∈ d.bytes ∧ p d := by
  simp only [h.slot]
  constructor
  · rintro ⟨n, ⟨d, hd, hb⟩, d', hd', hp⟩
    cases hd.symm.trans hd'
    exact ⟨d, List.mem_of_getElem? hd, hb, hp⟩
  · rintro ⟨d, hd, hb, hp⟩
    rcases List.mem_iff_getElem?.mp hd with ⟨n, hn⟩
    exact ⟨n, ⟨d, hn, hb⟩, d, hn, hp⟩

/-- A byte means the opcode that has it among its bytes. -/
theorem Holds.lookup?_eq_some_iff (h : t.Holds es) {o : Opcode} :
    t.lookup? b = some o ↔ ∃ d ∈ es, b ∈ d.bytes ∧ d.opcode = o := by
  rw [lookup?, Option.bind_eq_some_iff]
  simp only [h.descriptors, List.getElem?_map, Option.map_eq_some_iff]
  exact h.exists_slot_iff

/-- The aliases of a byte are the bytes of the opcode it stands for. -/
theorem Holds.mem_aliases_iff_entry (h : t.Holds es) :
    c ∈ t.aliases b ↔ ∃ d ∈ es, b ∈ d.bytes ∧ c ∈ d.bytes := by
  rw [mem_aliases_iff, ← h.exists_slot_iff]
  simp only [h.slot c, and_comm]

theorem Holds.aliases_eq_nil_iff (h : t.Holds es) :
    t.aliases b = [] ↔ ∀ d ∈ es, b ∉ d.bytes := by
  simp only [List.eq_nil_iff_forall_not_mem, h.mem_aliases_iff_entry, not_exists, not_and]
  constructor
  · intro hnone d hd hb
    -- A byte that means something is an alias of itself.
    exact hnone b d hd hb hb
  · intro hnone c d hd hb
    exact absurd hb (hnone d hd)

/-- What a table answers after any number of attempts to enter an opcode, whichever of them have
    succeeded. A further attempt fails at the first byte that belongs to an opcode in the table,
    and then leaves the table alone. No position leads out of the descriptors, and these stand in
    the order in which they came. No byte belongs to two opcodes; a byte means the one it belongs
    to, and its aliases are the bytes of that one. -/
theorem meaning_of_history (es : List OpcodeEntry) :
    let t := (∅ : OpcodeTable).after es
    let ds := (∅ : OpcodeTable).entered es
    (∀ e : OpcodeEntry,
      ((∃ b, t.insert e.bytes e.opcode = .error b) ↔ ∃ b ∈ e.bytes, ∃ d ∈ ds, b ∈ d.bytes) ∧
      (∀ b, t.insert e.bytes e.opcode = .error b ↔
        ∃ before behind, e.bytes = before ++ b :: behind ∧ (∃ d ∈ ds, b ∈ d.bytes) ∧
          ∀ c ∈ before, ∀ d ∈ ds, c ∉ d.bytes) ∧
      (Edit.enter e).on t = match t.insert e.bytes e.opcode with
        | .ok u => (.ok (), u)
        | .error b => (.error b, t)) ∧
    (∀ b n, t.slot b = some n → n < t.descriptors.length) ∧
    ds.Pairwise (fun d e => ∀ b ∈ d.bytes, b ∉ e.bytes) ∧
    (∀ b o, t.lookup? b = some o ↔ ∃ d ∈ ds, b ∈ d.bytes ∧ d.opcode = o) ∧
    t.descriptors = ds.map OpcodeEntry.opcode ∧
    t.entries.Pairwise (fun x y => x.1 < y.1) ∧
    (∀ b o, (b, o) ∈ t.entries ↔ t.lookup? b = some o) ∧
    ∀ b, (t.aliases b).Pairwise (· < ·) ∧
      (∀ c, c ∈ t.aliases b ↔ ∃ d ∈ ds, b ∈ d.bytes ∧ c ∈ d.bytes) ∧
      (t.aliases b = [] ↔ ∀ d ∈ ds, b ∉ d.bytes) := by
  intro t ds
  have h : t.Holds ds := holds_empty.after es
  refine ⟨fun e => ⟨h.exists_insert_eq_error_iff, fun b => h.insert_eq_error_iff_first,
      on_enter e t⟩, h.wellFormed, h.pairwise_disjoint, fun b o => h.lookup?_eq_some_iff,
    h.descriptors, pairwise_entries t, fun b o => mem_entries_iff, fun b => ?_⟩
  exact ⟨pairwise_aliases t b, fun c => h.mem_aliases_iff_entry, h.aliases_eq_nil_iff⟩

end OpcodeTable

end StackLift
