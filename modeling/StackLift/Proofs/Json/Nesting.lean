import StackLift.Proofs.Json.Decoder

/-!
# Levels of a Document

How deep a written value may nest and still be read.

A document may have arrays and objects within one another only so deep, and a decoder
hands on one level less each time it goes into one. So there are two sides to reading a
written value. With as many levels left as the value nests it is read, and with fewer it is
turned down, whatever it was written for and however its parts would be read. For a
decoder that looks at every part of its value both sides go by the same number, and
`ReadsAt` says them in one equation. It speaks of one number of levels at a time, since the
parts of a value are read with fewer levels than the value itself.

Members that are read one after the other are turned down at the first that nests too
deep. Those in front of it have been read by then, so it does not matter which one it is.

## Main definitions

* `Json.nesting`: How many arrays and objects stand within one another.
* `Decoder.ReadsAt`: A decoder reads a value just if there are levels enough for it.
* `Shape.FillsAt`: The members of an object fill a draft just if there are.

## Theorems

* `Reads.readsAt`: Values without parts are read with any number of levels.
* `enter_bind_eq_ite`: An array or object takes a level for itself.
* `readsAt_tagged`: A form with a content is read if the content is.
* `foldlM_readMember_eq_ite`, `readsAt_object`: A record is read if its members are.
* `readsAt_record`: A form whose content is a record.
* `run_write_eq_ite`: What a document says that holds a written value.
-/

namespace StackLift

namespace Json

variable {α σ : Type}

mutual

/-- How many arrays and objects of the value stand within one another. -/
def nesting : Json → Nat
  | null | boolean _ | number _ | string _ => 0
  | array items => itemsNesting items + 1
  | object members => membersNesting members + 1

/-- The deepest nesting among the items of an array. -/
def itemsNesting : List Json → Nat
  | [] => 0
  | item :: items => max (nesting item) (itemsNesting items)

/-- The deepest nesting among the values of an object. -/
def membersNesting : List (String × Json) → Nat
  | [] => 0
  | (_, value) :: members => max (nesting value) (membersNesting members)

end

namespace Decoder

/-- With so many levels left, the decoder takes the value for `a` if it does not nest
    deeper, and turns it down otherwise. -/
def ReadsAt (decoder : Decoder α) (levels : Nat) (j : Json) (a : α) : Prop :=
  decoder levels j.node = if j.nesting ≤ levels then .ok a else .error .malformed

variable {decoder content : Decoder α} {levels : Nat} {j : Json} {a : α}

/-- A value without parts is read with any number of levels. -/
theorem Reads.readsAt (h : decoder.Reads 0 j a) (hj : j.nesting = 0) (levels : Nat) :
    decoder.ReadsAt levels j a := by
  have hle : j.nesting ≤ levels := hj ▸ Nat.zero_le levels
  rw [ReadsAt, if_pos hle]
  exact h levels (Nat.zero_le levels)

/-- An array or object takes a level for itself and leaves the others to what is in it. -/
theorem enter_bind_eq_ite {read : Nat → Except Refusal α} {n : Nat}
    (h : ∀ left < levels, read left = if n ≤ left then .ok a else .error .malformed) :
    (enter levels >>= read) = if n + 1 ≤ levels then .ok a else .error .malformed := by
  cases levels with
  | zero =>
      rw [if_neg (Nat.not_succ_le_zero n)]
      rfl
  | succ left =>
      refine (h left (Nat.lt_succ_self left)).trans ?_
      simp only [Nat.add_le_add_iff_right]

/-- A form with a content is read if the content is, with the levels that are left for it. -/
theorem readsAt_tagged {forms : List (String × Form α)} {name : String} {form : Form α}
    (hform : forms.find? (·.1 == name) = some (name, form))
    (h : ∀ left < levels, Decoder.ReadsAt form.decode left j a) :
    (variant forms).ReadsAt levels (.tagged name j) a := by
  have hname : formOf forms name = .ok form := by
    rw [formOf, hform]
  have hnesting : (Json.tagged name j).nesting = j.nesting + 1 := by
    rw [tagged, nesting, membersNesting, membersNesting, Nat.max_zero]
  rw [ReadsAt, hnesting, tagged, node, memberNodes, memberNodes, variant]
  refine enter_bind_eq_ite fun left hleft => ?_
  rw [hname, ← h left hleft]
  -- Nothing comes behind the content, neither in the object nor in the text.
  simp only [bind, Except.bind]
  split
  · next e he => exact he.symm
  · next a' ha => exact ha.symm

end Decoder

/-- The members of an object, read one after the other with so many levels left, make one
    draft of a record another one, unless one of them nests too deep. -/
inductive Shape.FillsAt (s : Shape σ α) (levels : Nat) :
    σ → List (String × Json) → σ → Prop where
  | nil (draft : σ) : FillsAt s levels draft [] draft
  /-- The member is a part of the record that the draft does not have yet. -/
  | cons {β : Type} {draft filled : σ} {key : String} {j : Json} {members : List (String × Json)}
      {b : β} {decoder : Decoder β} {get : σ → Option β} {set : β → σ → σ} {hasDefault : Bool}
      (hpart : s.parts.find? (·.name == key) = some (.of key decoder get set hasDefault))
      (hget : get draft = none) (hreads : decoder.ReadsAt levels j b)
      (hrest : FillsAt s levels (set b draft) members filled) :
      FillsAt s levels draft ((key, j) :: members) filled

namespace Shape

variable {s : Shape σ α} {levels : Nat} {members : List (String × Json)} {draft filled : σ}

theorem foldlM_readMember_eq_ite (h : s.FillsAt levels draft members filled) :
    (memberNodes members).foldlM (s.readMember levels) draft =
      if membersNesting members ≤ levels then .ok filled else .error .malformed := by
  induction h with
  | nil draft => rfl
  | @cons β draft filled key j members b decoder get set hasDefault hpart hget hreads _ ih =>
      rw [memberNodes, List.foldlM_cons, membersNesting]
      -- The draft goes on with the member, or it is this member that nests too deep.
      have hmember : s.readMember levels draft (some key, j.node) =
          (decoder levels j.node).map (set · draft) := by
        simp only [readMember, hpart, RecordPart.of, hget]
        rfl
      by_cases hle : j.nesting ≤ levels
      · rw [hmember, hreads, if_pos hle]
        refine ih.trans ?_
        simp only [Nat.max_le, hle, true_and]
      · rw [hmember, hreads, if_neg hle, if_neg fun hc => hle (Nat.max_le.mp hc).1]
        rfl

/-- A record is read if its members are, with the levels that are left for them. -/
theorem readsAt_object {a : α} (h : ∀ left < levels, s.FillsAt left s.start members filled)
    (hfinish : s.finish filled = .ok a) :
    Decoder.ReadsAt s.decode levels (.object members) a := by
  rw [Decoder.ReadsAt, nesting, node, decode]
  refine Decoder.enter_bind_eq_ite fun left hleft => ?_
  rw [foldlM_readMember_eq_ite (h left hleft)]
  by_cases hle : membersNesting members ≤ left
  · rw [if_pos hle, if_pos hle]
    exact hfinish
  · rw [if_neg hle, if_neg hle]
    rfl

end Shape

/-- A form whose content is a record takes two levels more than the members of it. -/
theorem Decoder.readsAt_record {s : Shape σ α} {forms : List (String × Form α)} {name : String}
    {levels : Nat} {members : List (String × Json)} {filled : σ} {a : α}
    (hform : forms.find? (·.1 == name) = some (name, .record s.decode))
    (h : ∀ left, left + 1 < levels → s.FillsAt left s.start members filled)
    (hfinish : s.finish filled = .ok a) :
    (variant forms).ReadsAt levels (.tagged name (.object members)) a := by
  refine readsAt_tagged hform fun outer houter => ?_
  exact Shape.readsAt_object (fun left hleft => h left (by omega)) hfinish

/-- What a document says that holds a written value, whatever its layout: the value, or
    that it nests too deep. -/
theorem Decoder.run_write_eq_ite {decoder : Decoder α} {j : Json} {a : α}
    (h : decoder.ReadsAt maxLevels j a) (hj : j.Fits) (l : Layout) :
    decoder.run (.ofText (j.write l)) =
      if j.nesting ≤ maxLevels then .ok a else .error .malformed := by
  rw [run, ofText_write hj, h]
  by_cases hle : j.nesting ≤ maxLevels
  · rw [if_pos hle]
    rfl
  · rw [if_neg hle]
    rfl

end Json

end StackLift
