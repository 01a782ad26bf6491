import StackLift.Proofs.Json.Nesting
import StackLift.Proofs.Revision.Json
import StackLift.Statement.Json

/-!
# Code There and Back

An expression or statement that is written down is the one that is read back.

Expressions stand within one another, so the decoder for them is made from itself. A bound
on how often keeps it from going round, and `decoder` takes the levels of the document for
that bound. An expression takes two levels, one for the name of its form and one for its
parts, while the bound goes down by one. So it is always the document that gives out
first: as far as it has levels left the bound plays no role, and where it has none left an
expression is turned down before the bound is asked for.

That makes the induction one over the bound, with every expression in reach of it at once.
What one round does is the same for all bounds. It reads one form with its parts, and
supposes of the expressions within that they are read with the levels that are left then.

A tree that was never a document has no limit on its levels. The equations for trees say
what happens with any number of them, and in particular that as many as the tree nests are
enough.

## Theorems

* `Expression.fits_toJson`, `Statement.fits_toJson`: The numbers of code are words.
* `Expression.readsAt_variant_forms`: One form with its parts.
* `Expression.readsAt_toJson`, `Statement.readsAt_toJson`: Code is read as what it was
  written for, just if there are levels enough.
* `code_survives_json`: Code survives JSON, as a tree and as a text.
-/

namespace StackLift

open Json (Decoder Fits Layout)

namespace Json

theorem Fits.word (w : UInt64) : (Json.word w).Fits := .number w.toNat_lt

theorem Decoder.reads_word (w : UInt64) : Decoder.word.Reads 0 (.word w) w := by
  have h := (reads_natural w.toNat_lt "u64").map UInt64.ofNat
  rw [UInt64.ofNat_toNat] at h
  exact h

theorem Decoder.reads_size (w : UInt64) : Decoder.size.Reads 0 (.word w) w := by
  have h := (reads_natural w.toNat_lt "usize").map UInt64.ofNat
  rw [UInt64.ofNat_toNat] at h
  exact h

end Json

namespace Expression

theorem fits_toJson (e : Expression) : e.toJson.Fits := by
  induction e with
  | const width value =>
      refine .tagged (.object ?_) _
      simp only [List.forall_mem_cons]
      exact ⟨.word _, .word _, fun m hm => absurd hm List.not_mem_nil⟩
  | reg width r =>
      refine .tagged (.object ?_) _
      simp only [List.forall_mem_cons]
      exact ⟨.word _, .string _, fun m hm => absurd hm List.not_mem_nil⟩
  | pop width => exact .tagged (.object (List.forall_mem_singleton.mpr (.word _))) _
  | load width address haddress =>
      refine .tagged (.object ?_) _
      simp only [List.forall_mem_cons]
      exact ⟨.word _, haddress, fun m hm => absurd hm List.not_mem_nil⟩
  | binary op width left right hleft hright =>
      refine .tagged (.object ?_) _
      simp only [List.forall_mem_cons]
      exact ⟨.string _, .word _, hleft, hright, fun m hm => absurd hm List.not_mem_nil⟩

/-- One form of expression with its parts, if the expressions within are read with the
    levels that are left for them. -/
theorem readsAt_variant_forms {inner : Decoder Expression} {levels : Nat}
    (h : ∀ left, left + 1 < levels → ∀ e : Expression, inner.ReadsAt left e.toJson e)
    (e : Expression) : (Json.variant (forms inner)).ReadsAt levels e.toJson e := by
  have hwidth (width : UInt64) := (Json.Decoder.reads_size width).readsAt rfl
  cases e with
  | const width value =>
      have hvalue := (Json.Decoder.reads_word value).readsAt rfl
      refine Json.Decoder.readsAt_record rfl (fun left _ =>
        .cons rfl rfl (hwidth width left) <| .cons rfl rfl (hvalue left) <| .nil _) ?_
      rfl
  | reg width r =>
      have hregister := r.reads_toJson.readsAt rfl
      refine Json.Decoder.readsAt_record rfl (fun left _ =>
        .cons rfl rfl (hwidth width left) <| .cons rfl rfl (hregister left) <| .nil _) ?_
      rfl
  | pop width =>
      refine Json.Decoder.readsAt_record rfl (fun left _ =>
        .cons rfl rfl (hwidth width left) <| .nil _) ?_
      rfl
  | load width address =>
      refine Json.Decoder.readsAt_record rfl (fun left hleft =>
        .cons rfl rfl (hwidth width left) <| .cons rfl rfl (h left hleft address) <| .nil _) ?_
      rfl
  | binary op width lhs rhs =>
      have hop := op.reads_toJson.readsAt rfl
      refine Json.Decoder.readsAt_record rfl (fun left hleft =>
        .cons rfl rfl (hop left) <| .cons rfl rfl (hwidth width left) <|
          .cons rfl rfl (h left hleft lhs) <| .cons rfl rfl (h left hleft rhs) <| .nil _) ?_
      rfl

/-- The bound plays no role as far as the document has no more levels left. -/
theorem readsAt_decoderWithin {bound levels : Nat} (h : levels ≤ bound) (e : Expression) :
    (decoderWithin bound).ReadsAt levels e.toJson e := by
  induction bound generalizing levels e with
  | zero => exact readsAt_variant_forms (fun left hleft => by omega) e
  | succ bound ih => exact readsAt_variant_forms (fun left hleft => ih (by omega)) e

theorem readsAt_toJson (e : Expression) (levels : Nat) : decoder.ReadsAt levels e.toJson e :=
  readsAt_decoderWithin (Nat.le_refl levels) e

end Expression

namespace Statement

theorem fits_toJson (s : Statement) : s.toJson.Fits := by
  cases s with
  | nop => exact .string _
  | push width value =>
      refine .tagged (.object ?_) _
      simp only [List.forall_mem_cons]
      exact ⟨.word _, value.fits_toJson, fun m hm => absurd hm List.not_mem_nil⟩
  | setReg width r value =>
      refine .tagged (.object ?_) _
      simp only [List.forall_mem_cons]
      exact ⟨.word _, .string _, value.fits_toJson, fun m hm => absurd hm List.not_mem_nil⟩
  | store width address value =>
      refine .tagged (.object ?_) _
      simp only [List.forall_mem_cons]
      exact ⟨.word _, address.fits_toJson, value.fits_toJson,
        fun m hm => absurd hm List.not_mem_nil⟩
  | jump target =>
      exact .tagged (.object (List.forall_mem_singleton.mpr target.fits_toJson)) _
  | ret => exact .string _

theorem readsAt_toJson (s : Statement) (levels : Nat) : decoder.ReadsAt levels s.toJson s := by
  have hwidth (width : UInt64) := (Json.Decoder.reads_size width).readsAt rfl
  cases s with
  | nop => exact (Json.Decoder.reads_unit rfl).readsAt rfl levels
  | push width value =>
      refine Json.Decoder.readsAt_record rfl (fun left _ =>
        .cons rfl rfl (hwidth width left) <| .cons rfl rfl (value.readsAt_toJson left) <|
          .nil _) ?_
      rfl
  | setReg width r value =>
      have hregister := r.reads_toJson.readsAt rfl
      refine Json.Decoder.readsAt_record rfl (fun left _ =>
        .cons rfl rfl (hwidth width left) <| .cons rfl rfl (hregister left) <|
          .cons rfl rfl (value.readsAt_toJson left) <| .nil _) ?_
      rfl
  | store width address value =>
      refine Json.Decoder.readsAt_record rfl (fun left _ =>
        .cons rfl rfl (hwidth width left) <| .cons rfl rfl (address.readsAt_toJson left) <|
          .cons rfl rfl (value.readsAt_toJson left) <| .nil _) ?_
      rfl
  | jump target =>
      refine Json.Decoder.readsAt_record rfl (fun left _ =>
        .cons rfl rfl (target.readsAt_toJson left) <| .nil _) ?_
      rfl
  | ret => exact (Json.Decoder.reads_unit rfl).readsAt rfl levels

end Statement

/-- Code survives JSON. The tree of an expression or statement is read as that expression or
    statement with as many levels as it nests, and with fewer it is turned down. A text has
    so many levels as a document may have, so it is read just if it nests no deeper, whatever
    the blanks between its marks. -/
theorem code_survives_json :
    (∀ (e : Expression) (levels : Nat), Expression.decoder levels e.toJson.node =
      if e.toJson.nesting ≤ levels then .ok e else .error .malformed) ∧
    (∀ (s : Statement) (levels : Nat), Statement.decoder levels s.toJson.node =
      if s.toJson.nesting ≤ levels then .ok s else .error .malformed) ∧
    (∀ (e : Expression) (l : Layout), Expression.decoder.run (.ofText (e.toJson.write l)) =
      if e.toJson.nesting ≤ Json.Decoder.maxLevels then .ok e else .error .malformed) ∧
    (∀ (s : Statement) (l : Layout), Statement.decoder.run (.ofText (s.toJson.write l)) =
      if s.toJson.nesting ≤ Json.Decoder.maxLevels then .ok s else .error .malformed) := by
  refine ⟨fun e levels => e.readsAt_toJson levels, fun s levels => s.readsAt_toJson levels,
    fun e l => ?_, fun s l => ?_⟩
  · exact Json.Decoder.run_write_eq_ite (e.readsAt_toJson _) e.fits_toJson l
  · exact Json.Decoder.run_write_eq_ite (s.readsAt_toJson _) s.fits_toJson l

-- Two levels for the statement, and two for the expression within.
example : (Statement.setReg 8 .vlhs (.pop 8)).toJson.nesting = 4 := rfl

end StackLift
