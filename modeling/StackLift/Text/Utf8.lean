/-!
# UTF-8

The characters of a byte sequence. Every byte that belongs to no character is
passed on as such, so that whoever reads the sequence can go on behind it and
still knows how many bytes there were.

A byte sequence is well formed exactly if all its symbols are characters. The
bytes of a character of more than one byte are all above the ASCII range, hence
a character missing its end never takes an ASCII character with it.

## Main definitions

* `Symbol`: A character, or a byte that belongs to none.
* `Utf8.symbols`: The symbols of a byte sequence.
* `Utf8.size`: The number of bytes of a symbol.
-/

namespace StackLift

/-- A character, or nothing for a byte that belongs to no character. -/
abbrev Symbol := Option Char

namespace Utf8

/-- A character whose first bytes have been read. -/
structure Pending where
  /-- How many bytes have been read. -/
  taken : Nat := 1
  /-- How many bytes are missing. -/
  missing : Nat
  /-- The number that the bytes so far stand for. -/
  value : Nat
  /-- The least value of the next byte. -/
  least : UInt8 := 0x80
  /-- The greatest value of the next byte. -/
  greatest : UInt8 := 0xbf

/-- What the first byte of a character says: the whole character, or the start of
    one. The bounds of the second byte rule out numbers that have a shorter form,
    the surrogates, and numbers beyond the last character. -/
def lead (b : UInt8) : Symbol ⊕ Pending :=
  if b < 0x80 then .inl (Char.ofNat b.toNat)
  else if 0xc2 ≤ b ∧ b ≤ 0xdf then .inr { missing := 1, value := b.toNat % 32 }
  else if b = 0xe0 then .inr { missing := 2, value := 0, least := 0xa0 }
  else if b = 0xed then .inr { missing := 2, value := 13, greatest := 0x9f }
  else if 0xe1 ≤ b ∧ b ≤ 0xef then .inr { missing := 2, value := b.toNat % 16 }
  else if b = 0xf0 then .inr { missing := 3, value := 0, least := 0x90 }
  else if 0xf1 ≤ b ∧ b ≤ 0xf3 then .inr { missing := 3, value := b.toNat % 8 }
  else if b = 0xf4 then .inr { missing := 3, value := 4, greatest := 0x8f }
  else .inl none

/-- The pending character with a further byte, which is the last one missing or
    is followed by others. -/
def Pending.extend (p : Pending) (b : UInt8) : Symbol ⊕ Pending :=
  let value := p.value * 64 + b.toNat % 64
  if p.missing ≤ 1 then .inl (Char.ofNat value)
  else .inr { taken := p.taken + 1, missing := p.missing - 1, value }

/-- The symbols of the bytes behind a pending character. The bytes of a character
    that misses its end belong to none. -/
def symbolsBehind : Option Pending → List UInt8 → List Symbol
  | none, [] => []
  | some p, [] => List.replicate p.taken none
  | none, b :: bs => match lead b with
    | .inl s => s :: symbolsBehind none bs
    | .inr p => symbolsBehind (some p) bs
  | some p, b :: bs =>
    if p.least ≤ b ∧ b ≤ p.greatest then match p.extend b with
      | .inl s => s :: symbolsBehind none bs
      | .inr p => symbolsBehind (some p) bs
    else List.replicate p.taken none ++ match lead b with
      | .inl s => s :: symbolsBehind none bs
      | .inr p => symbolsBehind (some p) bs

/-- The symbols of a byte sequence. -/
def symbols (bs : List UInt8) : List Symbol := symbolsBehind none bs

/-- The number of bytes of a symbol. -/
def size : Symbol → Nat
  | some c => c.utf8Size
  | none => 1

/-- The number of bytes of a sequence of symbols. -/
def totalSize (cs : List Symbol) : Nat := cs.foldr (fun s total => size s + total) 0

end Utf8

end StackLift
