import StackLift.Json.Document
import StackLift.Proofs.Json.Scalar

/-!
# Documents There and Back

The tree of a written value is that value, whatever blanks stand between its marks.

A document is read by a walk over its lexemes that remembers the containers around the
present place. Where the walk is about to read a value, and the text of a value stands
there, it ends up behind that value, and what it remembers is the value itself. So the
text of a value may stand inside any containers and in front of anything that does not
go on with a number. That is what makes the statement one that can be proved along the
value: behind an item there is a comma or a bracket, with blanks before it.

Numbers are read as integers as far as they fit into a word. Nothing else is written by
anything here, but a value could hold a larger number, and so `Fits` rules it out.

## Main definitions

* `Json.Fits`: All the numbers of a value are words.
* `Json.node`: The tree of a value.
* `Json.Leads`: What the text of a value does to a walk.

## Theorems

* `scan_blanks`: Blanks between lexemes do not count.
* `walk_writeItems`, `walk_writeMembers`: The parts of a value behind its first one.
* `leads_array`, `leads_object`: The brackets around them.
* `leads_of_fits`: The text of a value leads a walk behind it.
* `ofText_write`: The document of a written value.
-/

namespace StackLift

namespace Json

/-- All the numbers of the value are words. -/
inductive Fits : Json → Prop where
  | null : Fits null
  | boolean (b : Bool) : Fits (boolean b)
  | number {n : Nat} (h : n < UInt64.size) : Fits (number n)
  | string (s : String) : Fits (string s)
  | array {items : List Json} (h : ∀ j ∈ items, Fits j) : Fits (array items)
  | object {members : List (String × Json)} (h : ∀ m ∈ members, Fits m.2) : Fits (object members)

namespace Fits

theorem byte (b : UInt8) : (Json.byte b).Fits :=
  number (Nat.lt_trans b.toNat_lt (by decide))

theorem list {α : Type} {write : α → Json} {as : List α} (h : ∀ a ∈ as, (write a).Fits) :
    (Json.list write as).Fits :=
  array (List.forall_mem_map.mpr h)

theorem tagged {j : Json} (h : j.Fits) (tag : String) : (Json.tagged tag j).Fits :=
  object (List.forall_mem_singleton.mpr h)

end Fits

mutual

/-- The tree of a value. -/
def node : Json → Node
  | null => .scalar .null
  | boolean b => .scalar (.boolean b)
  | number n => .scalar (.number (.integer n))
  | string s => .scalar (.text (some s))
  | array items => .array (nodes items) none
  | object members => .object (memberNodes members) none none

/-- The trees of the items of an array. -/
def nodes : List Json → List Node
  | [] => []
  | item :: items => node item :: nodes items

/-- The keys of an object and the trees of its values. -/
def memberNodes : List (String × Json) → List (Option String × Node)
  | [] => []
  | (key, value) :: members => (some key, node value) :: memberNodes members

end

theorem nodes_eq_map (items : List Json) : nodes items = items.map node := by
  induction items with
  | nil => rfl
  | cons item items ih => rw [nodes, ih, List.map_cons]

theorem memberNodes_eq_map (members : List (String × Json)) :
    memberNodes members = members.map fun m => (some m.1, m.2.node) := by
  induction members with
  | nil => rfl
  | cons m members ih => rw [memberNodes, ih, List.map_cons]

namespace Lexeme

variable {cs : List Char} {rest : List Symbol} {c : Char}

/-- Blanks between lexemes do not count. -/
theorem scan_blanks (hcs : ∀ c ∈ cs, isBlank c = true) (rest : List Symbol) :
    scan (cs.map some ++ rest) = scan rest := by
  induction cs with
  | nil => rfl
  | cons c cs ih =>
      rw [List.map_cons, List.cons_append, scan, if_pos (hcs c List.mem_cons_self)]
      exact ih fun c hc => hcs c (List.mem_cons_of_mem _ hc)

theorem scan_mark {l : Lexeme} (hblank : isBlank c = false) (hl : mark? c = some l)
    (rest : List Symbol) : scan (some c :: rest) = l :: scan rest := by
  rw [scan, hblank, hl]
  rfl

theorem behind_append (letters : List Char) (rest : List Symbol) :
    behind letters (letters.map some ++ rest) = .ok rest := by
  induction letters with
  | nil => rfl
  | cons l letters ih =>
      rw [List.map_cons, List.cons_append, behind, if_pos rfl]
      exact ih

theorem scan_word (letters : List Char) {value : Scalar} (hblank : isBlank c = false)
    (hmark : mark? c = none) (hword : word? c = some (letters, value)) (rest : List Symbol) :
    scan (some c :: (letters.map some ++ rest)) = scalar value :: scan rest := by
  have hbehind := behind_append letters rest
  rw [scan, hblank, hmark, hword]
  simp only [Bool.false_eq_true, if_false]
  split
  · next heq =>
      cases hbehind.symm.trans heq
      rfl
  · next heq => cases hbehind.symm.trans heq

theorem scan_quote (s : String) (rest : List Symbol) :
    scan ((quote s).map some ++ rest) = scalar (.text (some s)) :: scan rest := by
  have htext := Text.scan_escapes s rest
  have hquote : (quote s).map some ++ rest =
      some '"' :: ((s.toList.flatMap escape).map some ++ some '"' :: rest) := by
    rw [quote, List.map_append, List.map_cons, List.append_assoc]
    rfl
  have hblank : isBlank '"' = false := rfl
  have hmark : mark? '"' = none := rfl
  have hword : word? '"' = none := rfl
  rw [hquote, scan, hblank, hmark, hword]
  simp only [Bool.false_eq_true, if_false, if_true]
  split
  · next heq =>
      cases htext.symm.trans heq
      rfl
  · next heq => cases htext.symm.trans heq

theorem of_isDigit (hc : c.isDigit = true) :
    isBlank c = false ∧ mark? c = none ∧ word? c = none ∧ c ≠ '"' := by
  refine ⟨?_, ?_, ?_, ?_⟩
  · rw [← Bool.not_eq_true]
    intro h
    simp only [isBlank, Bool.or_eq_true, decide_eq_true_eq] at h
    rcases h with ((rfl | rfl) | rfl) | rfl <;> contradiction
  · unfold mark?
    split <;> first | rfl | contradiction
  · unfold word?
    split <;> first | rfl | contradiction
  · rintro rfl
    contradiction

theorem scan_toDigits {n : Nat} (hn : n < UInt64.size) (hrest : Number.Ends rest) :
    scan ((Nat.toDigits 10 n).map some ++ rest) =
      scalar (.number (.integer n)) :: scan rest := by
  have hnumber := Number.scan_toDigits hn hrest
  rcases hcs : Nat.toDigits 10 n with _ | ⟨c, cs⟩
  · exact absurd hcs Nat.toDigits_ne_nil
  · have hc : c.isDigit = true :=
      Nat.isDigit_of_mem_toDigits (by decide) (by decide) (hcs ▸ List.mem_cons_self)
    rcases of_isDigit hc with ⟨hblank, hmark, hword, hquote⟩
    rw [hcs, List.map_cons, List.cons_append] at hnumber
    rw [List.map_cons, List.cons_append, scan, hblank, hmark, hword]
    simp only [Bool.false_eq_true, if_false, if_neg hquote, if_pos (Or.inr hc)]
    split
    · next heq =>
        cases hnumber.symm.trans heq
        rfl
    · next heq => cases hnumber.symm.trans heq

end Lexeme

namespace Number

variable {cs : List Char} {rest : List Symbol} {c : Char}

/-- A number ends in front of a mark. -/
theorem ends_mark {x : Lexeme} (hx : Lexeme.mark? c = some x) (rest : List Symbol) :
    Ends (some c :: rest) := by
  intro c' hc'
  cases hc'
  unfold Lexeme.mark? at hx
  split at hx
  · decide
  · decide
  · decide
  · decide
  · decide
  · decide
  · contradiction

/-- Blanks do not belong to a number, and what stands behind them ends it as well. -/
theorem ends_append (hcs : ∀ c ∈ cs, isBlank c = true) (hrest : Ends rest) :
    Ends (cs.map some ++ rest) := by
  cases cs with
  | nil => exact hrest
  | cons c cs =>
      have hc := hcs c List.mem_cons_self
      simp only [isBlank, Bool.or_eq_true, decide_eq_true_eq] at hc
      intro c' hc'
      cases hc'
      rcases hc with ((rfl | rfl) | rfl) | rfl
      · decide
      · decide
      · decide
      · decide

end Number

open Number (Ends ends_mark ends_append)

theorem Place.walk_cons {p q : Place} {x : Lexeme} (h : p.step x = .ok q) (xs : List Lexeme) :
    p.walk (x :: xs) = q.walk xs := by
  rw [walk, h]

/-- The text of the value leads a walk that is about to read a value behind it. -/
def Leads (l : Layout) (j : Json) : Prop :=
  ∀ (depth : Nat) (frames : List Frame) (rest : List Symbol), Ends rest →
    (Place.value frames).walk (Lexeme.scan ((j.writeAt l depth).map some ++ rest)) =
      (Place.behind j.node frames).walk (Lexeme.scan rest)

section Walks

variable {l : Layout} {rest : List Symbol}

theorem ends_writeItems (l : Layout) (depth : Nat) (items : List Json) (hrest : Ends rest) :
    Ends ((writeItems l depth items).map some ++ rest) := by
  cases items with
  | nil => exact hrest
  | cons item items => exact ends_mark (x := .comma) rfl _

theorem ends_writeMembers (l : Layout) (depth : Nat) (members : List (String × Json))
    (hrest : Ends rest) : Ends ((writeMembers l depth members).map some ++ rest) := by
  cases members with
  | nil => exact hrest
  | cons m members => exact ends_mark (x := .comma) rfl _

theorem walk_writeItems {items : List Json} (hitems : ∀ j ∈ items, Leads l j) (depth : Nat)
    (frames : List Frame) (done : List Node) (hrest : Ends rest) :
    (Place.item frames done).walk
        (Lexeme.scan ((writeItems l depth items).map some ++ rest)) =
      (Place.item frames ((nodes items).reverse ++ done)).walk (Lexeme.scan rest) := by
  induction items generalizing done with
  | nil => rfl
  | cons item items ih =>
      -- A comma, blanks, the first item as if it stood in an array, and the others.
      have hitem := hitems item List.mem_cons_self depth (.array done :: frames) _
        (ends_writeItems l depth items hrest)
      have hothers := ih (fun j hj => hitems j (List.mem_cons_of_mem _ hj)) (item.node :: done)
      simp only [writeItems, List.map_cons, List.map_append, List.cons_append, List.append_assoc]
      rw [Lexeme.scan_mark (l := .comma) rfl rfl, Place.walk_cons rfl,
        Lexeme.scan_blanks (l.isBlank_of_mem_line depth), hitem]
      refine hothers.trans ?_
      rw [nodes, List.reverse_cons, List.append_assoc, List.singleton_append]

/-- A walk that is about to read a key is led behind the value of the key. -/
theorem walk_member {key : String} {value : Json} (hvalue : Leads l value) (depth : Nat)
    (frames : List Frame) (done : List (Option String × Node)) (hrest : Ends rest) :
    (Place.key frames done).walk (Lexeme.scan ((quote key).map some ++
        some ':' :: (l.gap.map some ++ ((value.writeAt l depth).map some ++ rest)))) =
      (Place.member frames ((some key, value.node) :: done)).walk (Lexeme.scan rest) := by
  have hbehind := hvalue depth (.object done (some key) :: frames) rest hrest
  rw [Lexeme.scan_quote, Place.walk_cons rfl, Lexeme.scan_mark (l := .colon) rfl rfl,
    Place.walk_cons rfl, Lexeme.scan_blanks l.isBlank_of_mem_gap]
  exact hbehind

theorem walk_writeMembers {members : List (String × Json)}
    (hmembers : ∀ m ∈ members, Leads l m.2) (depth : Nat) (frames : List Frame)
    (done : List (Option String × Node)) (hrest : Ends rest) :
    (Place.member frames done).walk
        (Lexeme.scan ((writeMembers l depth members).map some ++ rest)) =
      (Place.member frames ((memberNodes members).reverse ++ done)).walk (Lexeme.scan rest) := by
  induction members generalizing done with
  | nil => rfl
  | cons m members ih =>
      -- A comma, blanks, the first key with its value, and the others.
      rcases m with ⟨key, value⟩
      have hvalue : Leads l value := hmembers (key, value) List.mem_cons_self
      have hothers := ih (fun m hm => hmembers m (List.mem_cons_of_mem _ hm))
        ((some key, value.node) :: done)
      simp only [writeMembers, List.map_cons, List.map_append, List.cons_append, List.append_assoc]
      rw [Lexeme.scan_mark (l := .comma) rfl rfl, Place.walk_cons rfl,
        Lexeme.scan_blanks (l.isBlank_of_mem_line depth),
        walk_member hvalue depth frames done (ends_writeMembers l depth members hrest)]
      refine hothers.trans ?_
      rw [memberNodes, List.reverse_cons, List.append_assoc, List.singleton_append]

theorem leads_array {items : List Json} (hitems : ∀ j ∈ items, Leads l j) :
    Leads l (.array items) := by
  intro depth frames rest _
  cases items with
  | nil =>
      simp only [writeAt, List.map_cons, List.map_nil, List.cons_append, List.nil_append]
      rw [Lexeme.scan_mark (l := .openArray) rfl rfl, Place.walk_cons rfl,
        Lexeme.scan_mark (l := .closeArray) rfl rfl, Place.walk_cons rfl]
      rfl
  | cons item items =>
      -- Behind the last item stand blanks and the bracket, neither of which is a digit.
      have hclose : Ends ((l.line depth).map some ++ some ']' :: rest) :=
        ends_append (l.isBlank_of_mem_line depth) (ends_mark (x := .closeArray) rfl rest)
      have hitem := hitems item List.mem_cons_self (depth + 1) (.array [] :: frames) _
        (ends_writeItems l (depth + 1) items hclose)
      have hothers := walk_writeItems (fun j hj => hitems j (List.mem_cons_of_mem _ hj))
        (depth + 1) frames [item.node] hclose
      simp only [writeAt, List.map_cons, List.map_append, List.map_nil, List.cons_append,
        List.nil_append, List.append_assoc]
      rw [Lexeme.scan_mark (l := .openArray) rfl rfl, Place.walk_cons rfl,
        Lexeme.scan_blanks (l.isBlank_of_mem_line (depth + 1)), hitem]
      refine hothers.trans ?_
      rw [Lexeme.scan_blanks (l.isBlank_of_mem_line depth),
        Lexeme.scan_mark (l := .closeArray) rfl rfl, Place.walk_cons rfl, List.reverse_append,
        List.reverse_reverse]
      rfl

theorem leads_object {members : List (String × Json)} (hmembers : ∀ m ∈ members, Leads l m.2) :
    Leads l (.object members) := by
  intro depth frames rest _
  cases members with
  | nil =>
      simp only [writeAt, List.map_cons, List.map_nil, List.cons_append, List.nil_append]
      rw [Lexeme.scan_mark (l := .openObject) rfl rfl, Place.walk_cons rfl,
        Lexeme.scan_mark (l := .closeObject) rfl rfl, Place.walk_cons rfl]
      rfl
  | cons m members =>
      rcases m with ⟨key, value⟩
      have hvalue : Leads l value := hmembers (key, value) List.mem_cons_self
      have hclose : Ends ((l.line depth).map some ++ some '\x7d' :: rest) :=
        ends_append (l.isBlank_of_mem_line depth) (ends_mark (x := .closeObject) rfl rest)
      have hothers := walk_writeMembers (fun m hm => hmembers m (List.mem_cons_of_mem _ hm))
        (depth + 1) frames [(some key, value.node)] hclose
      simp only [writeAt, List.map_cons, List.map_append, List.map_nil, List.cons_append,
        List.nil_append, List.append_assoc]
      rw [Lexeme.scan_mark (l := .openObject) rfl rfl, Place.walk_cons rfl,
        Lexeme.scan_blanks (l.isBlank_of_mem_line (depth + 1)),
        walk_member hvalue (depth + 1) frames [] (ends_writeMembers l (depth + 1) members hclose)]
      refine hothers.trans ?_
      rw [Lexeme.scan_blanks (l.isBlank_of_mem_line depth),
        Lexeme.scan_mark (l := .closeObject) rfl rfl, Place.walk_cons rfl, List.reverse_append,
        List.reverse_reverse]
      rfl

/-- The text of a value leads a walk behind the tree of it. -/
theorem leads_of_fits {j : Json} (h : j.Fits) (l : Layout) : Leads l j := by
  -- Along the value, inside any containers and in front of anything that ends a number.
  induction h with
  | null =>
      intro depth frames rest _
      exact congrArg _ (Lexeme.scan_word ['u', 'l', 'l'] rfl rfl rfl rest)
  | boolean b =>
      intro depth frames rest _
      cases b with
      | true => exact congrArg _ (Lexeme.scan_word ['r', 'u', 'e'] rfl rfl rfl rest)
      | false =>
          exact congrArg _ (Lexeme.scan_word ['a', 'l', 's', 'e'] rfl rfl rfl rest)
  | number hn =>
      intro depth frames rest hrest
      rw [writeAt, Lexeme.scan_toDigits hn hrest]
      rfl
  | string s =>
      intro depth frames rest _
      rw [writeAt, Lexeme.scan_quote]
      rfl
  | array _ ih => exact leads_array ih
  | object _ ih => exact leads_object ih

end Walks

/-- The document of a written value has the tree of the value and nothing else. -/
theorem ofText_write {j : Json} (h : j.Fits) (l : Layout) :
    Document.ofText (j.write l) = ⟨j.node, false⟩ := by
  have hend : Ends [] := by
    intro c hc
    contradiction
  have hwalk := leads_of_fits h l 0 [] [] hend
  rw [List.append_nil] at hwalk
  rw [Document.ofText, Document.read, write, String.toList_ofList, hwalk, Lexeme.scan]
  rfl

-- One value with two layouts.
example : (list byte [1, 20]).compact = "[1,20]" := by decide

example : (list byte [1, 20]).pretty = "[\n  1,\n  20\n]" := by decide

end Json

end StackLift
