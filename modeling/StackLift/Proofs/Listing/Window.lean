import StackLift.Proofs.Instruction.Reading
import StackLift.Proofs.Listing.Decode

/-!
# Short Windows

A window as long as the longest instruction is as good as the whole image.

The decoder says how many bytes it has seen when an instruction is cut short, so it is not
enough that a longer window holds the same instruction: the error must come out the same,
with the same numbers in it. It does, because of two different windows on the same place
the shorter one is the longer one cut off at the length of the longest instruction. If
that takes bytes away, more are left than any instruction has, and nothing is cut short in
either window. If it does not, the windows are the same.

For the same reason an instruction is cut short only by the end of the image.

## Theorems

* `take_window`: A shorter window is the beginning of a longer one.
* `decode_take`: Bytes behind the longest instruction make no difference.
* `of_decode_eq_truncated`: What an instruction that is cut short says of its window.
* `readAlike_window`: Windows as long as the longest instruction lose nothing.
-/

namespace StackLift

namespace Image

variable {m : Image} {a : UInt64} {k limit : Nat}

theorem take_window (h : k ≤ limit) : (m.window a limit).take k = m.window a k := by
  cases ho : m.offset? a with
  | none =>
      simp only [window, ho, List.take_nil]
  | some o =>
      rw [window_of_offset? ho, window_of_offset? ho, List.take_take, Nat.min_eq_left h]

end Image

namespace Revision

variable {r : Revision} {address a : UInt64} {window : List UInt8}

theorem decode_take {k : Nat} (hk : r.maxLength ≤ k) :
    r.decode address (window.take k) = r.decode address window := by
  have hpos := r.maxLength_pos
  cases window with
  | nil => rw [List.take_nil]
  | cons byte rest =>
      cases ho : r.opcodes.lookup? byte with
      | none =>
          -- The first byte is there in any case, and it is all that counts.
          rw [List.take_cons (by omega)]
          simp only [decode, ho]
      | some o =>
          have hlength := length_le_maxLength ho
          refine (decode_congr ho ?_).symm
          rw [List.take_take, Nat.min_eq_left (by omega)]

/-- An instruction that is cut short is not longer than the longest one, and the window has
    fewer bytes than it. -/
theorem of_decode_eq_truncated {x : UInt64} {needed available : Nat}
    (h : r.decode address window = .error (.truncated x needed available)) :
    available = window.length ∧ window.length < needed ∧ needed ≤ r.maxLength := by
  rcases cases_of_decode_eq_truncated h with
    ⟨rfl, rfl, rfl⟩ | ⟨byte, rest, o, rfl, ho, hrest, rfl, rfl⟩
  · exact ⟨rfl, Nat.one_pos, r.maxLength_pos⟩
  · have hmax := length_le_maxLength ho
    have hlength : o.length = 1 + o.width.bytes := rfl
    rw [List.length_cons]
    omega

/-- A window as long as the longest instruction is read like any longer one: with the same
    flow, the same text and the same code, or with the same error. An instruction is cut
    short in it only outside the image, or if the window reaches to the end of the image. -/
theorem readAlike_window (r : Revision) (image : Image) (a : UInt64) (n : Nat)
    (hn : r.maxLength ≤ n) :
    let window := image.window a r.maxLength
    r.ReadAlike a (image.window a n) window ∧ r.ReadingsAgree a window ∧
      ∀ x needed available, r.decode a window = .error (.truncated x needed available) →
        image.contains a = false ∨
          ∃ o, image.offset? a = some o ∧ o + window.length = image.size := by
  intro window
  refine ⟨readAlike_of_decode_eq ?_, r.readingsAgree a window, ?_⟩
  · rw [← decode_take (Nat.le_refl r.maxLength), Image.take_window hn]
  · intro x needed available h
    rcases of_decode_eq_truncated h with ⟨_, hshort, hneeded⟩
    cases ho : image.offset? a with
    | none =>
        left
        rw [Image.contains, ho]
        rfl
    | some o =>
        -- The window is below its limit, so there are no more bytes to show.
        have hlt := Image.offset?_lt ho
        have hlength : window.length = min r.maxLength (image.size - o) := Image.length_window ho
        exact Or.inr ⟨o, rfl, by omega⟩

/-- A window on a push whose immediate goes on behind the end of the image. -/
theorem readAlike_window_push : ∃ r,
    ofDefinition BuiltinRevision.tigress3.definition = .ok r ∧ r.maxLength ≤ 16 ∧
    let image : Image := ⟨0xfffffffffffffffc, #[0x4e, 0x60, 0x01, 0x02], by decide⟩
    let window := image.window 0xfffffffffffffffd r.maxLength
    r.ReadAlike 0xfffffffffffffffd (image.window 0xfffffffffffffffd 16) window ∧
      r.ReadingsAgree 0xfffffffffffffffd window ∧
      ∀ x needed available,
        r.decode 0xfffffffffffffffd window = .error (.truncated x needed available) →
          image.contains 0xfffffffffffffffd = false ∨
            ∃ o, image.offset? 0xfffffffffffffffd = some o ∧ o + window.length = image.size := by
  rcases BuiltinRevision.exists_revision .tigress3 with ⟨r, hr⟩
  have hmax : r.maxLength ≤ 16 := by
    have h : (ofDefinition BuiltinRevision.tigress3.definition).toOption.map maxLength = some 9 := by
      decide
    rw [hr] at h
    rw [Option.some.inj h]
    decide
  exact ⟨r, hr, hmax, readAlike_window r _ _ 16 hmax⟩

end Revision

end StackLift
