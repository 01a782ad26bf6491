import StackLift.Json.Record
import StackLift.Json.Variant
import StackLift.Proofs.Except
import StackLift.Proofs.Json.Document

/-!
# Decoders There and Back

Decoders that take a written value for what it was written for.

Nothing is said here about how a value is written, only about its tree. A decoder for
parts makes one for the whole: for a list, a map, a form with a content and a record.
Each array or object takes one of the levels that a document may have, so a law comes
with the number of levels that a value needs.

A record is read member by member into a draft. Its members may only be ones that the
draft does not have yet, and when they have all been read, the draft has to be complete.
A part with a default would be in the draft either way; that a written part counts more
than its default is seen when the draft is finished.

## Main definitions

* `Decoder.Reads`: A decoder takes a value for what it was written for.
* `Shape.Fills`: The members of an object fill a draft.

## Theorems

* `reads_list`, `reads_map`: Collections.
* `reads_unit`, `reads_newtype`: The forms of a variant.
* `reads_object`: A record out of an object.
* `run_write`: A document that holds a written value.
-/

namespace StackLift

namespace Json

variable {α β σ : Type}

/-- The decoder takes the value for `a`, if there are at least so many levels left. -/
def Decoder.Reads (decoder : Decoder α) (depth : Nat) (j : Json) (a : α) : Prop :=
  ∀ levels, depth ≤ levels → decoder levels j.node = .ok a

namespace Decoder

variable {decoder : Decoder α} {depth : Nat} {j : Json} {a : α}

/-- It does no harm if more levels are left. -/
theorem Reads.mono {deeper : Nat} (h : decoder.Reads depth j a) (hle : depth ≤ deeper) :
    decoder.Reads deeper j a := by
  intro levels hlevels
  exact h levels (Nat.le_trans hle hlevels)

/-- A value that a decoder takes for something else may be what that stands for. -/
theorem Reads.map (h : decoder.Reads depth j a) (f : α → β) :
    Decoder.Reads (fun levels n => (decoder levels n).map f) depth j (f a) := by
  intro levels hlevels
  have hread := h levels hlevels
  simp only [hread]
  rfl

theorem reads_text (s : String) : text.Reads 0 (.string s) s := by
  intro levels _
  rfl

theorem reads_natural {n bound : Nat} (hn : n < bound) (expected : String) :
    Reads (natural bound expected) 0 (.number n) n := by
  intro levels _
  have hin : 0 ≤ (n : Int) ∧ (n : Int) < bound := ⟨Int.natCast_nonneg n, Int.ofNat_lt.mpr hn⟩
  rw [node, natural, if_pos hin, Int.toNat_natCast]

theorem reads_byte (b : UInt8) : byte.Reads 0 (.byte b) b := by
  have h := (reads_natural b.toNat_lt "u8").map UInt8.ofNat
  rw [UInt8.ofNat_toNat] at h
  exact h

theorem reads_parsed {ofText? : String → Option α} {s : String} (hs : ofText? s = some a)
    (expected : String) : (parsed expected ofText?).Reads 0 (.string s) a := by
  intro levels _
  have htext : textAs expected levels (node (.string s)) = .ok s := rfl
  rw [parsed, htext]
  simp only [bind, Except.bind, hs]
  rfl

theorem enter_of_lt {levels : Nat} (h : depth + 1 ≤ levels) :
    ∃ left, enter levels = .ok left ∧ depth ≤ left := by
  cases levels with
  | zero => exact absurd h (Nat.not_succ_le_zero depth)
  | succ left => exact ⟨left, rfl, Nat.le_of_succ_le_succ h⟩

theorem reads_list {write : α → Json} {as : List α}
    (h : ∀ a ∈ as, decoder.Reads depth (write a) a) :
    (list decoder).Reads (depth + 1) (.list write as) as := by
  intro levels hlevels
  rcases enter_of_lt hlevels with ⟨left, hleft, hdepth⟩
  -- Every item is read with the levels that the array leaves.
  have hitems : (nodes (as.map write)).mapM (decoder left) = .ok as := by
    rw [nodes_eq_map, List.map_map]
    exact mapM_map_eq_ok fun a ha => h a ha left hdepth
  rw [Json.list, node, list, hleft]
  simp only [bind, Except.bind, hitems]
  rfl

theorem reads_map {write : α → Json} {as : List (String × α)}
    (h : ∀ e ∈ as, decoder.Reads depth (write e.2) e.2) :
    (map decoder).Reads (depth + 1) (.object (as.map fun e => (e.1, write e.2))) as := by
  intro levels hlevels
  rcases enter_of_lt hlevels with ⟨left, hleft, hdepth⟩
  have hmembers : (memberNodes (as.map fun e => (e.1, write e.2))).mapM (entry decoder left) =
      .ok as := by
    rw [memberNodes_eq_map, List.map_map]
    refine mapM_map_eq_ok fun e he => ?_
    rw [Function.comp_apply, entry, h e he left hdepth]
    rfl
  rw [node, map, hleft]
  simp only [bind, Except.bind, hmembers]
  rfl

/-- A form without content is its name. -/
theorem reads_unit {forms : List (String × Form α)} {name : String}
    (h : forms.find? (·.1 == name) = some (name, .unit a)) :
    (variant forms).Reads 0 (.string name) a := by
  intro levels _
  rw [node, variant, formOf, h]
  rfl

/-- A form with a content is an object whose one key is its name. -/
theorem reads_newtype {forms : List (String × Form α)} {name : String} {content : Decoder α}
    (h : forms.find? (·.1 == name) = some (name, .newtype content))
    (hcontent : content.Reads depth j a) :
    (variant forms).Reads (depth + 1) (.tagged name j) a := by
  intro levels hlevels
  rcases enter_of_lt hlevels with ⟨left, hleft, hdepth⟩
  have hform : formOf forms name = .ok (.newtype content) := by
    rw [formOf, h]
  rw [tagged, node, memberNodes, memberNodes, variant, hleft]
  simp only [bind, Except.bind, hform, Form.decode, hcontent left hdepth]
  rfl

end Decoder

/-- The members of an object, read one after the other with so many levels left, make one
    draft of a record another one. -/
inductive Shape.Fills (s : Shape σ α) (depth : Nat) : σ → List (String × Json) → σ → Prop where
  | nil (draft : σ) : Fills s depth draft [] draft
  /-- The member is a part of the record that the draft does not have yet. -/
  | cons {β : Type} {draft filled : σ} {key : String} {j : Json} {members : List (String × Json)} {b : β}
      {decoder : Decoder β} {get : σ → Option β} {set : β → σ → σ} {hasDefault : Bool}
      (hpart : s.parts.find? (·.name == key) = some (.of key decoder get set hasDefault))
      (hget : get draft = none) (hreads : decoder.Reads depth j b)
      (hrest : Fills s depth (set b draft) members filled) :
      Fills s depth draft ((key, j) :: members) filled

namespace Shape

variable {s : Shape σ α} {depth : Nat} {members : List (String × Json)} {draft filled : σ}

theorem foldlM_readMember (h : s.Fills depth draft members filled) {levels : Nat}
    (hlevels : depth ≤ levels) :
    (memberNodes members).foldlM (s.readMember levels) draft = .ok filled := by
  induction h with
  | nil draft => rfl
  | @cons β draft filled key j members b decoder get set hasDefault hpart hget hreads _ ih =>
      -- The key is that of a part, the draft does not have it, and the value is read.
      have hmember : s.readMember levels draft (some key, j.node) = .ok (set b draft) := by
        have hread := hreads levels hlevels
        simp only [readMember, hpart, RecordPart.of, hget, hread]
        rfl
      rw [memberNodes, List.foldlM_cons, hmember]
      exact ih

/-- A record out of an object whose members fill the draft of it. -/
theorem reads_object (h : s.Fills depth s.start members filled) {a : α}
    (hfinish : s.finish filled = .ok a) :
    Decoder.Reads s.decode (depth + 1) (.object members) a := by
  intro levels hlevels
  rcases Decoder.enter_of_lt hlevels with ⟨left, hleft, hdepth⟩
  have hdraft := foldlM_readMember h hdepth
  rw [node, decode, hleft]
  simp only [bind, Except.bind, hdraft]
  exact hfinish

end Shape

/-- What a document says that holds a written value, whatever its layout. -/
theorem Decoder.run_write {decoder : Decoder α} {depth : Nat} {j : Json} {a : α}
    (h : decoder.Reads depth j a) (hdepth : depth ≤ maxLevels) (hj : j.Fits) (l : Layout) :
    decoder.run (.ofText (j.write l)) = .ok a := by
  have hread := h maxLevels hdepth
  rw [run, ofText_write hj]
  simp only [bind, Except.bind, hread]
  rfl

end Json

end StackLift
