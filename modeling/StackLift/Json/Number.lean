import StackLift.Text.Utf8

/-!
# JSON Numbers

Numbers as they are read. Digits without fraction and exponent are an integer as
long as they fit into a word, or into a signed word behind a minus sign. All
other numbers, and zero behind a minus sign, are floating point.

The digits of a floating point number are gathered into one word. Digits that do
not fit any more are left out; behind the point that is all, before it each of
them counts in the exponent. The word is then scaled by a power of ten in one
multiplication or division, so the result need not be the floating point number
that is nearest to what is written.

## Main definitions

* `Fault`: The two ways for a document to break off.
* `Number`: A number that was read.
* `Number.scale?`: A word scaled by a power of ten.
* `Number.scan`: The number at the start of some symbols.

## Theorems

* `length_digitsBehind_le`: What stands behind digits is no longer than what
  stands before them.
-/

namespace StackLift

namespace Json

/-- The two ways for a document to break off. -/
inductive Fault where
  /-- What follows cannot stand there. -/
  | malformed
  /-- Nothing follows where something has to. -/
  | unfinished
deriving DecidableEq, Repr

namespace Fault

/-- The fault of a document that needs something else where `rest` stands. -/
def before (rest : List Symbol) : Fault := if rest.isEmpty then unfinished else malformed

end Fault

/-- A number that was read. -/
inductive Number where
  /-- Digits that fit into a word or a signed word. -/
  | integer (n : Int)
  /-- Any other number. -/
  | floating (x : Float)
  /-- A number that is larger than every floating point number. -/
  | outOfRange

namespace Number

/-- The value of a decimal digit. -/
def digit? : Symbol → Option Nat
  | some c => if c.isDigit then some (c.toNat - '0'.toNat) else none
  | none => none

/-- The decimal digits at the start. -/
def digits : List Symbol → List Nat
  | [] => []
  | s :: rest => match digit? s with
    | some d => d :: digits rest
    | none => []

/-- What stands behind the decimal digits at the start. -/
def digitsBehind (cs : List Symbol) : List Symbol := cs.dropWhile fun s => (digit? s).isSome

theorem length_digitsBehind_le (cs : List Symbol) : (digitsBehind cs).length ≤ cs.length :=
  (List.dropWhile_sublist _).length_le

/-- Appends digits to a word as long as it stays a word. The second component is
    the number of digits left out. -/
def gather (word : Nat) : List Nat → Nat × Nat
  | [] => (word, 0)
  | d :: ds =>
    if word * 10 + d < UInt64.size then gather (word * 10 + d) ds else (word, ds.length + 1)

/-- A power of ten. The powers up to `308` are floating point numbers. -/
def powerOfTen (n : Nat) : Float := Float.ofScientific 1 false n

/-- A number divided by a power of ten, in steps that the powers allow. -/
def shrink (x : Float) (power : Nat) : Float :=
  if power ≤ 308 then x / powerOfTen power
  else if x == 0 then x
  else shrink (x / powerOfTen 308) (power - 308)
termination_by power

/-- A word scaled by a power of ten, unless the result is too large. -/
def scale? (word : Nat) (exponent : Int) : Option Float :=
  let x := (UInt64.ofNat word).toFloat
  if exponent < 0 then some (shrink x exponent.natAbs)
  else if exponent.toNat ≤ 308 then
    let y := x * powerOfTen exponent.toNat
    if y.isInf then none else some y
  else if x == 0 then some x
  else none

/-- The floating point number with the given sign, word and power of ten. -/
def float (negative : Bool) (word : Nat) (exponent : Int) : Number :=
  match scale? word exponent with
  | some x => floating (if negative then -x else x)
  | none => outOfRange

/-- The number without fraction and exponent. -/
def whole (negative : Bool) (word : Nat) : Number :=
  if ¬negative then integer word
  else if 0 < word ∧ word ≤ 0x8000000000000000 then integer (-word)
  else float true word 0

/-- The part of a number behind the mark of the exponent. An exponent that does
    not fit into 31 bits decides alone whether the number vanishes. -/
def exponentPart (negative : Bool) (word : Nat) (shift : Int) (cs : List Symbol) :
    Except Fault (Number × List Symbol) :=
  let (down, cs) := match cs with
    | some '+' :: cs => (false, cs)
    | some '-' :: cs => (true, cs)
    | cs => (false, cs)
  match digits cs with
  | [] => .error (.before cs)
  | ds =>
    let exponent : Nat := ds.foldl (· * 10 + ·) 0
    let n :=
      if exponent < 0x80000000 then
        float negative word (if down then shift - Int.ofNat exponent else shift + Int.ofNat exponent)
      else if word = 0 ∨ down then float negative 0 0
      else outOfRange
    .ok (n, digitsBehind cs)

/-- The part of a number behind the word gathered so far, if there is any. -/
def exponent? (negative : Bool) (word : Nat) (shift : Int) (otherwise : Number) :
    List Symbol → Except Fault (Number × List Symbol)
  | some 'e' :: cs => exponentPart negative word shift cs
  | some 'E' :: cs => exponentPart negative word shift cs
  | cs => .ok (otherwise, cs)

/-- The part of a number behind the point. -/
def fractionPart (negative : Bool) (word : Nat) (shift : Int) (cs : List Symbol) :
    Except Fault (Number × List Symbol) :=
  match digits cs with
  | [] => .error (.before cs)
  | ds =>
    let (word, left) := gather word ds
    let shift := shift - (ds.length - left : Nat)
    exponent? negative word shift (float negative word shift) (digitsBehind cs)

/-- The number behind its sign. There is no zero before other digits. -/
def magnitude (negative : Bool) (cs : List Symbol) : Except Fault (Number × List Symbol) :=
  match digits cs with
  | [] => .error (.before cs)
  | 0 :: _ :: _ => .error .malformed
  | ds =>
    let (word, left) := gather 0 ds
    match digitsBehind cs with
    | some '.' :: cs => fractionPart negative word left cs
    | cs =>
      exponent? negative word left
        (if left = 0 then whole negative word else float negative word left) cs

/-- The number at the start, and what stands behind it. -/
def scan : List Symbol → Except Fault (Number × List Symbol)
  | some '-' :: cs => magnitude true cs
  | cs => magnitude false cs

theorem length_le_of_exponentPart {negative : Bool} {word : Nat} {shift : Int}
    {cs rest : List Symbol} {n : Number}
    (h : exponentPart negative word shift cs = .ok (n, rest)) : rest.length ≤ cs.length := by
  simp only [exponentPart] at h
  split at h
  · contradiction
  · cases h
    refine Nat.le_trans (length_digitsBehind_le _) ?_
    split <;> simp

theorem length_le_of_exponent? {negative : Bool} {word : Nat} {shift : Int} {other : Number}
    {cs rest : List Symbol} {n : Number}
    (h : exponent? negative word shift other cs = .ok (n, rest)) : rest.length ≤ cs.length := by
  unfold exponent? at h
  split at h
  · exact Nat.le_succ_of_le (length_le_of_exponentPart h)
  · exact Nat.le_succ_of_le (length_le_of_exponentPart h)
  · cases h
    exact Nat.le_refl _

theorem length_le_of_fractionPart {negative : Bool} {word : Nat} {shift : Int}
    {cs rest : List Symbol} {n : Number}
    (h : fractionPart negative word shift cs = .ok (n, rest)) : rest.length ≤ cs.length := by
  simp only [fractionPart] at h
  split at h
  · contradiction
  · exact Nat.le_trans (length_le_of_exponent? h) (length_digitsBehind_le _)

theorem length_digitsBehind_lt {cs : List Symbol} (h : digits cs ≠ []) :
    (digitsBehind cs).length < cs.length := by
  cases cs with
  | nil => exact absurd rfl h
  | cons s rest =>
    cases hs : digit? s with
    | none => simp [digits, hs] at h
    | some d =>
      have := length_digitsBehind_le rest
      simp only [digitsBehind, List.dropWhile_cons, hs, Option.isSome_some, if_true,
        List.length_cons] at this ⊢
      omega

theorem length_lt_of_magnitude {negative : Bool} {cs rest : List Symbol} {n : Number}
    (h : magnitude negative cs = .ok (n, rest)) : rest.length < cs.length := by
  simp only [magnitude] at h
  split at h
  · contradiction
  · contradiction
  · next hne _ =>
    have hlt := length_digitsBehind_lt hne
    split at h
    · next hb =>
      have := length_le_of_fractionPart h
      rw [hb] at hlt
      simp only [List.length_cons] at hlt
      omega
    · exact Nat.lt_of_le_of_lt (length_le_of_exponent? h) hlt

/-- A number takes up symbols. -/
theorem length_lt_of_scan {cs rest : List Symbol} {n : Number} (h : scan cs = .ok (n, rest)) :
    rest.length < cs.length := by
  unfold scan at h
  split at h
  · exact Nat.lt_succ_of_lt (length_lt_of_magnitude h)
  · exact length_lt_of_magnitude h

end Number

end Json

end StackLift
