import Mathlib.Algebra.Group.Nat.Defs
import Mathlib.Data.List.Basic
import StackLift.Proofs.Literal

/-!
# Text Taken Apart

Where one part of a text ends and the next one begins.

Nothing in a text says where its parts are, so what has been put together from two parts can be
taken apart again only if the end of the first can be found. There are two ways to find it.
A part may be as long as its column, whatever it says: that is what numbers are filled with
zeros for, and the zeros in front do not change the number. Or it may be made up of characters
of one kind, with a character of another kind behind it.

## Main definitions

* `StopsAt`: A text does not go on with a character of a kind.

## Theorems

* `append_inj_of_stopsAt`: A run of characters of one kind ends where another one stands.
* `digitsAfter?_padded`: A number filled with zeros is read as that number.
* `length_padded`: A number that fits its column is as long as the column.
* `length_byte`, `byte_inj`: A byte has two digits, and they say which byte it is.
-/

namespace StackLift

/-- The text does not go on with a character of the kind. -/
def StopsAt (p : Char → Bool) (k : List Char) : Prop := ∀ c ∈ k.head?, p c = false

theorem stopsAt_nil (p : Char → Bool) : StopsAt p [] := fun c hc => by contradiction

theorem stopsAt_cons {p : Char → Bool} {c : Char} {k : List Char} (h : p c = false) :
    StopsAt p (c :: k) := by
  rintro d ⟨⟩
  exact h

/-- A run of characters of one kind ends where a character of another kind stands. -/
theorem append_inj_of_stopsAt {p : Char → Bool} {xs ys k l : List Char}
    (hxs : ∀ c ∈ xs, p c = true) (hys : ∀ c ∈ ys, p c = true) (hk : StopsAt p k)
    (hl : StopsAt p l) (h : xs ++ k = ys ++ l) : xs = ys ∧ k = l := by
  have hrun {xs k : List Char} (hxs : ∀ c ∈ xs, p c = true) (hk : StopsAt p k) :
      (xs ++ k).takeWhile p = xs := by
    rw [List.takeWhile_append_of_pos hxs]
    cases k with
    | nil => rw [List.takeWhile_nil, List.append_nil]
    | cons c k =>
        rw [List.takeWhile_cons_of_neg (Bool.eq_false_iff.mp (hk c rfl)), List.append_nil]
  have hsame : xs = ys := by rw [← hrun hxs hk, h, hrun hys hl]
  refine ⟨hsame, ?_⟩
  rw [hsame] at h
  exact List.append_cancel_left h

namespace Numeral

open Literal (digitsAfter? digit?)

variable {width n : Nat} {c : Char}

theorem toList_padded (width n : Nat) :
    (padded width n).toList =
      List.replicate (width - (Nat.toDigits 16 n).length) '0' ++ Nat.toDigits 16 n := by
  rw [padded, String.toList_ofList, List.leftpad, digits]

/-- A number filled with zeros is read as that number. -/
theorem digitsAfter?_padded (width n : Nat) :
    digitsAfter? 16 0 (padded width n).toList = some n := by
  have hzeros (k : Nat) : digitsAfter? 16 0 (List.replicate k '0') = some 0 := by
    induction k with
    | zero => rfl
    | succ k ih => exact ih
  rw [toList_padded, Literal.digitsAfter?_append, hzeros, Option.bind_some,
    Literal.digitsAfter?_toDigits (by decide) (by decide)]

theorem padded_inj {m : Nat} (h : padded width m = padded width n) : m = n := by
  have hm := digitsAfter?_padded width m
  rw [h, digitsAfter?_padded, Option.some.injEq] at hm
  exact hm.symm

/-- A number that fits its column is as long as the column. -/
theorem length_padded (hwidth : 0 < width) (hn : n < 16 ^ width) :
    (padded width n).toList.length = width := by
  have hlength := (Nat.length_toDigits_le_iff (by decide) hwidth).mpr hn
  rw [padded, String.toList_ofList, List.length_leftpad, digits]
  exact Nat.max_eq_left hlength

theorem digit?_of_mem_padded (hc : c ∈ (padded width n).toList) : ∃ d, digit? c = some d :=
  Literal.exists_digit?_of_mem (digitsAfter?_padded width n) hc

theorem length_byte (b : UInt8) : (byte b).toList.length = 2 :=
  length_padded (by decide) b.toNat_lt

theorem byte_inj {a b : UInt8} (h : byte a = byte b) : a = b :=
  UInt8.toNat_inj.mp (padded_inj h)

end Numeral

end StackLift
