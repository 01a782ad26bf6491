import StackLift.Proofs.Machine.Frame
import StackLift.Proofs.Memory

/-!
# Machines Seen from Outside

A machine as two functions: what each register holds, and which byte, if any, was
last written to each address.

A machine keeps its memory in a table and reads and writes words by going through
their bytes. `StackMachine` forgets how, and its operations say what the result
is: a word is the value of eight bytes as digits, a word that is set changes the
eight addresses at a distance below eight, a value that is pushed stands below the
old top. Nothing is lost on the way, since a memory is what it holds at each
address. The lemmas `view_set`, `view_store`, `view_push` and `pop_eq` carry the
operations of a machine over, one by one.

## Main definitions

* `StackMachine`: Registers and written bytes as functions.
* `StackMachine.wordAt`, `StackMachine.setWord`: Words in memory.
* `StackMachine.top`, `StackMachine.second`: The two values on top of the stack.
* `StackMachine.dropped`, `StackMachine.pushed`: Values taken off and put on.
* `Machine.view`: The stack machine that a machine is.

## Theorems

* `eq_of_view_eq`: A machine is its view and its stack pointer register.
* `view_store`: Storing a word sets the word.
* `load_eq_wordAt`: Loading a word reads the word.
* `view_push`, `pop_eq`: The stack operations.
* `top_push`, `second_push`: What is on top of the stack behind a push.
-/

namespace StackLift

/-- A stack machine: what each register holds, and the byte that was last written
    to each address. -/
@[ext] structure StackMachine where
  /-- What a register holds. -/
  register : Register → UInt64
  /-- The byte that was last written to an address. -/
  cell : UInt64 → Option UInt8

namespace StackMachine

/-- The word in the eight bytes from an address on, the least significant first.
    Bytes that were never written are zero, and addresses wrap around. -/
def wordAt (s : StackMachine) (a : UInt64) : UInt64 :=
  UInt64.ofNat (Nat.ofDigits 256
    ((List.range 8).map fun k => ((s.cell (a + UInt64.ofNat k)).getD 0).toNat))

/-- The machine with a word in the eight bytes from an address on. -/
def setWord (s : StackMachine) (a value : UInt64) : StackMachine where
  register := s.register
  cell b := if b - a < 8 then some (UInt8.ofNat (value.toNat / 256 ^ (b - a).toNat)) else s.cell b

/-- The machine with one register changed. -/
def setRegister (s : StackMachine) (r : Register) (value : UInt64) : StackMachine where
  register t := if t = r then value else s.register t
  cell := s.cell

/-- The value on top of the stack. -/
def top (s : StackMachine) : UInt64 := s.wordAt (s.register .vsp)

/-- The value behind the one on top of the stack. -/
def second (s : StackMachine) : UInt64 := s.wordAt (s.register .vsp + 8)

/-- The machine with `n` values taken off the stack. -/
def dropped (s : StackMachine) (n : UInt64) : StackMachine :=
  s.setRegister .vsp (s.register .vsp + 8 * n)

/-- The machine with a value in the eight bytes below the old top of the stack. -/
def pushed (s : StackMachine) (value : UInt64) : StackMachine :=
  (s.setRegister .vsp (s.register .vsp - 8)).setWord (s.register .vsp - 8) value

@[simp] theorem wordAt_setRegister (s : StackMachine) (r : Register) (value a : UInt64) :
    (s.setRegister r value).wordAt a = s.wordAt a := rfl

theorem register_setRegister (s : StackMachine) (r t : Register) (value : UInt64) :
    (s.setRegister r value).register t = if t = r then value else s.register t := rfl

/-- Two different registers may be set in either order. -/
theorem setRegister_comm (s : StackMachine) {r t : Register} (v w : UInt64) (h : r ≠ t) :
    (s.setRegister r v).setRegister t w = (s.setRegister t w).setRegister r v := by
  ext u
  · simp only [register_setRegister]
    -- At most one of the two registers is the one that is looked at.
    by_cases hu : u = t
    · rw [if_pos hu, if_neg (fun hc => h (hc.symm.trans hu)), if_pos hu]
    · rw [if_neg hu, if_neg hu]
  · rfl

/-- Setting a word leaves the one behind it alone. -/
theorem wordAt_setWord_next (s : StackMachine) (a value : UInt64) :
    (s.setWord a value).wordAt (a + 8) = s.wordAt (a + 8) := by
  have hcell : ∀ k ∈ List.range 8, (s.setWord a value).cell (a + 8 + UInt64.ofNat k) =
      s.cell (a + 8 + UInt64.ofNat k) := by
    intro k hk
    have hlt : k < 8 := List.mem_range.mp hk
    have hdistance : a + 8 + UInt64.ofNat k - a = 8 + UInt64.ofNat k := by
      rw [UInt64.add_assoc, UInt64.add_comm a, UInt64.add_sub_cancel]
    have hbehind : ¬a + 8 + UInt64.ofNat k - a < 8 := by
      rw [hdistance, UInt64.lt_iff_toNat_lt, UInt64.toNat_add, UInt64.toNat_ofNat']
      simp only [UInt64.reduceToNat]
      omega
    exact if_neg hbehind
  rw [wordAt, wordAt, List.map_congr_left fun k hk => by rw [hcell k hk]]

end StackMachine

namespace Machine

variable {m : Machine}

/-- The stack machine that a machine is. -/
def view (m : Machine) : StackMachine := ⟨m.get, m.memory.cell?⟩

@[simp] theorem register_view (m : Machine) : m.view.register = m.get := rfl

/-- Nothing about a machine is lost in its view but the choice of the register
    that addresses the stack. -/
theorem eq_of_view_eq {m n : Machine} (h : m.view = n.view)
    (hsp : m.stackPointer = n.stackPointer) : m = n := by
  -- Two register files that agree on every register are the same record.
  have hget : ∀ r, m.registers.get r = n.registers.get r :=
    fun r => congrFun (congrArg StackMachine.register h) r
  have hregs : m.registers = n.registers := by
    cases hm : m.registers
    cases hn : n.registers
    rw [hm, hn] at hget
    simp only [Registers.mk.injEq]
    exact ⟨hget .vsp, hget .varg, hget .varg1, hget .varg2, hget .vreg, hget .vlhs, hget .vrhs⟩
  have hmem : m.memory = n.memory :=
    Memory.ext_cell? fun a => congrFun (congrArg StackMachine.cell h) a
  cases m
  cases n
  simp only [mk.injEq]
  exact ⟨hsp, hregs, hmem⟩

@[simp] theorem view_set (m : Machine) (r : Register) (v : UInt64) :
    (m.set r v).view = m.view.setRegister r v := by
  ext t
  · simp only [register_view, get_set, StackMachine.register_setRegister, eq_comm]
  · rfl

/-- Storing a word of full width sets the word. -/
@[simp] theorem view_store (m : Machine) (a v : UInt64) :
    (m.store a 8 v).view = m.view.setWord a v := by
  refine StackMachine.ext rfl (funext fun b => (Memory.cell?_store m.memory a b 8 v).trans ?_)
  by_cases h : b - a < 8
  · -- A distance within the word is that of one of its own eight bytes.
    have hmod : (b - a).toNat % 8 = (b - a).toNat := Nat.mod_eq_of_lt (UInt64.lt_iff_toNat_lt.mp h)
    simp only [StackMachine.setWord, h, if_true, hmod]
  · simp only [StackMachine.setWord, h, if_false]
    rfl

/-- Loading a word of full width reads the word. -/
theorem load_eq_wordAt (m : Machine) (a : UInt64) : m.memory.load a 8 = m.view.wordAt a := by
  rw [Memory.load_eq_ofNat, StackMachine.wordAt]
  simp only [UInt64.reduceToNat, Nat.min_self, Memory.byte_eq_getD, view]

/-- Putting a word onto the stack. -/
theorem view_push (h : m.stackPointer = .vsp) (v : UInt64) :
    (m.push 8 v).view = m.view.pushed v := by
  rw [push, view_store, view_set, h, StackMachine.pushed, register_view]

/-- The value that has been put onto the stack is on top of it. -/
theorem top_push (h : m.stackPointer = .vsp) (v : UInt64) : (m.push 8 v).view.top = v := by
  have hget := get_push m 8 v
  rw [h] at hget
  rw [StackMachine.top, register_view, hget, ← load_eq_wordAt, push, h]
  exact Memory.load_store _ _ _

/-- The value that was on top of the stack is behind the one that has been put there. -/
theorem second_push (h : m.stackPointer = .vsp) (v : UInt64) :
    (m.push 8 v).view.second = m.view.top := by
  have hget := get_push m 8 v
  have hword := StackMachine.wordAt_setWord_next m.view (m.get .vsp - 8) v
  rw [h] at hget
  rw [UInt64.sub_add_cancel] at hword
  rw [StackMachine.second, register_view, hget, UInt64.sub_add_cancel, view_push h]
  exact hword

/-- Taking a word off the stack. -/
theorem pop_eq (h : m.stackPointer = .vsp) :
    m.pop 8 = (m.view.top, m.set .vsp (m.get .vsp + 8)) := by
  rw [pop, load_eq_wordAt, h, StackMachine.top, register_view]

end Machine

end StackLift
