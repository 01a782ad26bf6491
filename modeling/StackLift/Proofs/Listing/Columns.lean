import StackLift.Proofs.Listing.Maximal
import StackLift.Proofs.Text

/-!
# Lines Read off Their Text

A printed line says everything there is to know about the line.

What could go wrong is that one part of the text runs into the next, because the last part, the
text of the instruction, may be anything at all. But the parts in front of it stand in columns,
and no column ever overflows: an address has at most as many digits as there are places, and
the bytes of the longest instruction fill their column to the last place. So the text of the
instruction begins at the same place whatever the line is about, and what is in front of it can
be read without a look at it.

Only the label is as long as it likes, for it shows an address without zeros in front. It has a
line of its own above, is known by its first letter, which is no digit, and ends at its colon.

## Main definitions

* `Line.above`: The line above, with the label.
* `Line.columns`: What stands in front of the text of the instruction.
* `Line.Plain`: Lines as they are found in listings.

## Theorems

* `Plain.length_columns`: No column overflows.
* `Plain.encoding_inj`: The bytes are known from their column.
* `Plain.above_append_inj`: The label is known from the line above.
* `plain_of_mem_lines`: The lines of listings are plain.
* `text_of_mem_lines`: Lines are known from their texts.
-/

namespace StackLift

namespace Line

/-- The line above the instruction, with the label, if there is one. -/
def above (l : Line) : String :=
  match l.label with
  | some label => label ++ ":\n"
  | none => ""

/-- What stands in front of the text of the instruction in the same line. -/
def columns (l : Line) : String :=
  Numeral.padded 16 l.address.toNat ++ "  " ++ Column.left 26 l.encodingText ++ "  "

/-- A line as it is found in listings: an instruction of one to nine bytes, with the name of
    a location or without, and without a remark. -/
structure Plain (l : Line) : Prop where
  label : ∀ label ∈ l.label, ∃ a, label = locationLabel a
  comment : l.comment = none
  length_pos : 0 < l.encoding.length
  length_le : l.encoding.length ≤ 9

variable {l l' : Line}

theorem text_of_comment_eq_none (h : l.comment = none) :
    l.text = l.above ++ l.columns ++ l.instructionText := by
  rw [text, above, columns, h]
  cases l.label with
  | none => simp only [String.append_empty, String.append_assoc]
  | some label => simp only [String.append_empty, String.append_assoc]

/-- An address fills its column. -/
theorem length_padded_address (l : Line) :
    (Numeral.padded 16 l.address.toNat).toList.length = 16 :=
  Numeral.length_padded (by decide) l.address.toNat_lt

/-- The digits of bytes, each of them behind a blank. -/
def bytesBehind (bs : List UInt8) : List Char :=
  bs.flatMap fun b => ' ' :: (Numeral.byte b).toList

theorem bytesBehind_cons (b : UInt8) (bs : List UInt8) :
    bytesBehind (b :: bs) = ' ' :: ((Numeral.byte b).toList ++ bytesBehind bs) := by
  rw [bytesBehind, List.flatMap_cons, List.cons_append, ← bytesBehind]

theorem toList_encodingText {b : UInt8} {bs : List UInt8} (h : l.encoding = b :: bs) :
    l.encodingText.toList = (Numeral.byte b).toList ++ bytesBehind bs := by
  rw [encodingText, h, String.toList_intercalate]
  clear h
  induction bs generalizing b with
  | nil =>
      rw [List.map_singleton, List.map_singleton, List.intercalate_singleton]
      exact (List.append_nil _).symm
  | cons c bs ih =>
      have hblank : " ".toList = [' '] := by decide
      have hrest := ih (b := c)
      rw [List.map_cons, List.map_cons, hblank] at hrest
      rw [List.map_cons, List.map_cons, List.map_cons, List.map_cons, hblank,
        List.intercalate_cons_cons, hrest, bytesBehind_cons, List.append_assoc,
        List.singleton_append]

theorem length_bytesBehind (bs : List UInt8) : (bytesBehind bs).length = 3 * bs.length := by
  induction bs with
  | nil => rfl
  | cons b bs ih =>
      rw [bytesBehind_cons, List.length_cons, List.length_append, Numeral.length_byte, ih,
        List.length_cons]
      omega

/-- Bytes are known from their digits, whatever blanks are behind them. -/
theorem bytesBehind_append_inj {bs cs : List UInt8} {j k : Nat}
    (h : bytesBehind bs ++ List.replicate j ' ' = bytesBehind cs ++ List.replicate k ' ') :
    bs = cs := by
  -- Where there is one byte more on one side, the other side has blanks and no digits.
  have hdigit (b : UInt8) (bs : List UInt8) (i j : Nat) :
      List.replicate j ' ' ≠ bytesBehind (b :: bs) ++ List.replicate i ' ' := by
    intro hc
    have hpos : 0 < (Numeral.byte b).toList.length := by
      rw [Numeral.length_byte]
      decide
    rcases List.exists_mem_of_length_pos hpos with ⟨c, hmem⟩
    have hblank : c ∈ List.replicate j ' ' := by
      rw [hc, bytesBehind_cons]
      exact List.mem_append_left _ (List.mem_cons_of_mem _ (List.mem_append_left _ hmem))
    rcases Numeral.digit?_of_mem_padded hmem with ⟨d, hd⟩
    exact Literal.ne_of_digit?_eq_some hd (by decide) (List.eq_of_mem_replicate hblank)
  induction bs generalizing cs with
  | nil =>
      cases cs with
      | nil => rfl
      | cons c cs => exact absurd h (hdigit c cs k j)
  | cons b bs ih =>
      cases cs with
      | nil => exact absurd h.symm (hdigit b bs j k)
      | cons c cs =>
          simp only [bytesBehind_cons, List.cons_append, List.append_assoc, List.cons.injEq,
            true_and] at h
          rcases List.append_inj h ((Numeral.length_byte b).trans (Numeral.length_byte c).symm)
            with ⟨hb, hrest⟩
          rw [Numeral.byte_inj (String.toList_inj.mp hb), ih hrest]

theorem toList_left (width : Nat) (text : String) :
    (Column.left width text).toList =
      text.toList ++ List.replicate (width - text.toList.length) ' ' := by
  rw [Column.left, String.toList_ofList, List.rightpad]

theorem Plain.exists_encoding (h : l.Plain) :
    ∃ b bs, l.encoding = b :: bs ∧ bs.length ≤ 8 := by
  have hpos := h.length_pos
  have hle := h.length_le
  cases hbytes : l.encoding with
  | nil =>
      rw [hbytes] at hpos
      exact absurd hpos (Nat.lt_irrefl 0)
  | cons b bs =>
      rw [hbytes, List.length_cons] at hle
      exact ⟨b, bs, rfl, by omega⟩

/-- The bytes of an instruction are known from their column. -/
theorem Plain.encoding_inj (h : l.Plain) (h' : l'.Plain)
    (htext : Column.left 26 l.encodingText = Column.left 26 l'.encodingText) :
    l.encoding = l'.encoding := by
  rcases h.exists_encoding with ⟨b, bs, hb, _⟩
  rcases h'.exists_encoding with ⟨b', bs', hb', _⟩
  have hlist := congrArg String.toList htext
  rw [toList_left, toList_left, toList_encodingText hb, toList_encodingText hb',
    List.append_assoc, List.append_assoc] at hlist
  rcases List.append_inj hlist ((Numeral.length_byte b).trans (Numeral.length_byte b').symm)
    with ⟨hfirst, hrest⟩
  rw [hb, hb', Numeral.byte_inj (String.toList_inj.mp hfirst), bytesBehind_append_inj hrest]

/-- No column overflows, so that the text of an instruction begins at the same place in every
    line. -/
theorem Plain.length_columns (h : l.Plain) : l.columns.length = 46 := by
  rcases h.exists_encoding with ⟨b, bs, hb, hle⟩
  have hbytes : (Column.left 26 l.encodingText).toList.length = 26 := by
    rw [toList_left, List.length_append, List.length_replicate, toList_encodingText hb,
      List.length_append, Numeral.length_byte, length_bytesBehind]
    omega
  rw [columns, String.length_append, String.length_append, String.length_append,
    ← String.length_toList, length_padded_address, ← String.length_toList (s := Column.left 26 _),
    hbytes]
  rfl

/-- There are digits and blanks in front of the text of an instruction, and nothing else. -/
theorem Plain.digit?_of_mem_columns (h : l.Plain) {c : Char} (hc : c ∈ l.columns.toList) :
    c = ' ' ∨ ∃ d, Literal.digit? c = some d := by
  rcases h.exists_encoding with ⟨b, bs, hb, _⟩
  have hblanks : "  ".toList = [' ', ' '] := by decide
  simp only [columns, String.toList_append, hblanks, toList_left, toList_encodingText hb,
    List.mem_append, List.mem_replicate, bytesBehind, List.mem_flatMap, List.mem_cons,
    List.not_mem_nil, or_false, or_self] at hc
  rcases hc with ((hc | hc) | (hc | ⟨x, _, hc | hc⟩) | ⟨_, hc⟩) | hc
  · exact Or.inr (Numeral.digit?_of_mem_padded hc)
  · exact Or.inl hc
  · exact Or.inr (Numeral.digit?_of_mem_padded hc)
  · exact Or.inl hc
  · exact Or.inr (Numeral.digit?_of_mem_padded hc)
  · exact Or.inl hc
  · exact Or.inl hc

/-- In front of the text of an instruction, the line goes on in the same line. -/
theorem Plain.newline_not_mem_columns (h : l.Plain) : '\n' ∉ l.columns.toList := by
  intro hc
  rcases h.digit?_of_mem_columns hc with hblank | ⟨d, hd⟩
  · exact absurd hblank (by decide)
  · exact Literal.ne_of_digit?_eq_some hd (by decide) rfl

/-- A line begins with its address, and so with a digit, unless it has a label. -/
theorem stopsAt_columns (l : Line) (k : List Char) :
    StopsAt (· == 'l') (l.columns.toList ++ k) := by
  have hpos : 0 < (Numeral.padded 16 l.address.toNat).toList.length := by
    rw [length_padded_address]
    decide
  rcases List.exists_cons_of_length_pos hpos with ⟨c, cs, haddress⟩
  have hc : c ∈ (Numeral.padded 16 l.address.toNat).toList := haddress ▸ List.mem_cons_self
  simp only [columns, String.toList_append, List.append_assoc]
  rw [haddress, List.cons_append]
  refine stopsAt_cons ?_
  rw [beq_eq_false_iff_ne]
  rcases Numeral.digit?_of_mem_padded hc with ⟨d, hd⟩
  exact Literal.ne_of_digit?_eq_some hd (by decide)

theorem toList_locationLabel (a : UInt64) :
    (locationLabel a).toList = ['l', 'o', 'c', '_'] ++ Nat.toDigits 16 a.toNat := by
  have hfront : "loc_".toList = ['l', 'o', 'c', '_'] := by decide
  rw [locationLabel, String.toList_append, hfront, Numeral.bare, String.toList_ofList,
    Numeral.digits]

/-- A colon ends the name of a location. -/
theorem ne_colon_of_mem_locationLabel (a : UInt64) :
    ∀ c ∈ (locationLabel a).toList, (c != ':') = true := by
  intro c hc
  rw [bne_iff_ne]
  rw [toList_locationLabel, List.mem_append] at hc
  rcases hc with hc | hc
  · rintro rfl
    revert hc
    decide
  · rcases Literal.exists_digit?_of_mem
      (Literal.digitsAfter?_toDigits (by decide) (by decide) a.toNat) hc with ⟨d, hd⟩
    exact Literal.ne_of_digit?_eq_some hd (by decide)

/-- The label is known from the line above, and so is whether there is one. -/
theorem Plain.above_append_inj (h : l.Plain) (h' : l'.Plain) {k k' : List Char}
    (hk : StopsAt (· == 'l') k) (hk' : StopsAt (· == 'l') k')
    (htext : l.above.toList ++ k = l'.above.toList ++ k') : l.label = l'.label ∧ k = k' := by
  have hnone {l : Line} (hl : l.label = none) : l.above.toList = [] := by
    rw [above, hl]
    decide
  have hsome {l : Line} {label : String} (hl : l.label = some label) (k : List Char) :
      l.above.toList ++ k = label.toList ++ ':' :: '\n' :: k := by
    have hend : ":\n".toList = [':', '\n'] := by decide
    rw [above, hl, String.toList_append, hend, List.append_assoc]
    rfl
  -- What is behind a line without a label does not begin like one.
  have hletter {l : Line} (h : l.Plain) {label : String} (hl : l.label = some label)
      {k k' : List Char} (hk : StopsAt (· == 'l') k) : k ≠ l.above.toList ++ k' := by
    rcases h.label label hl with ⟨a, rfl⟩
    rintro rfl
    rw [hsome hl, toList_locationLabel] at hk
    exact absurd (hk 'l' rfl) (by decide)
  cases hl : l.label with
  | none =>
      cases hl' : l'.label with
      | none =>
          rw [hnone hl, hnone hl'] at htext
          exact ⟨rfl, htext⟩
      | some label' =>
          rw [hnone hl] at htext
          exact absurd htext (hletter h' hl' hk)
  | some label =>
      cases hl' : l'.label with
      | none =>
          rw [hnone hl'] at htext
          exact absurd htext.symm (hletter h hl hk')
      | some label' =>
          rcases h.label label hl with ⟨a, rfl⟩
          rcases h'.label label' hl' with ⟨a', rfl⟩
          rw [hsome hl, hsome hl'] at htext
          rcases append_inj_of_stopsAt (ne_colon_of_mem_locationLabel a)
            (ne_colon_of_mem_locationLabel a') (stopsAt_cons rfl) (stopsAt_cons rfl) htext
            with ⟨hlabel, hrest⟩
          simp only [List.cons.injEq, true_and] at hrest
          exact ⟨by rw [String.toList_inj.mp hlabel], hrest⟩

/-- Address and bytes are known from their columns. -/
theorem Plain.columns_inj (h : l.Plain) (h' : l'.Plain) (hcolumns : l.columns = l'.columns) :
    l.address = l'.address ∧ l.encoding = l'.encoding := by
  have hlist := congrArg String.toList hcolumns
  simp only [columns, String.toList_append, List.append_assoc] at hlist
  rcases List.append_inj hlist ((length_padded_address l).trans (length_padded_address l').symm)
    with ⟨ha, hrest⟩
  have hbytes := List.append_cancel_right (List.append_cancel_left hrest)
  exact ⟨UInt64.toNat_inj.mp (Numeral.padded_inj (String.toList_inj.mp ha)),
    h.encoding_inj h' (String.toList_inj.mp hbytes)⟩

/-- A line is known from its text. -/
theorem Plain.text_inj (h : l.Plain) (h' : l'.Plain) (htext : l.text = l'.text) :
    l.label = l'.label ∧ l.address = l'.address ∧ l.encoding = l'.encoding ∧
      l.instructionText = l'.instructionText := by
  have hlist := congrArg String.toList htext
  rw [text_of_comment_eq_none h.comment, text_of_comment_eq_none h'.comment] at hlist
  simp only [String.toList_append, List.append_assoc] at hlist
  rcases h.above_append_inj h' (stopsAt_columns l _) (stopsAt_columns l' _) hlist
    with ⟨hlabel, hrest⟩
  -- The columns are of the same length, so they end at the same place.
  have hlength : l.columns.toList.length = l'.columns.toList.length := by
    rw [String.length_toList, String.length_toList, h.length_columns, h'.length_columns]
  rcases List.append_inj hrest hlength with ⟨hcolumns, hinstruction⟩
  rcases h.columns_inj h' (String.toList_inj.mp hcolumns) with ⟨haddress, hencoding⟩
  exact ⟨hlabel, haddress, hencoding, String.toList_inj.mp hinstruction⟩

end Line

namespace Revision

variable {r r' : Revision} {m m' : Image} {a a' : UInt64} {l l' : Line}

theorem plain_of_mem_lines (hl : l ∈ (r.listing m a).lines) : l.Plain := by
  rw [listing, Listing.ofRun] at hl
  rcases List.mem_map.mp hl with ⟨i, hi, rfl⟩
  have hdecode := (walk_straightLine r m a).decodeAt_of_mem hi
  have hlength : i.encoding.length = i.length := length_encoding hdecode
  refine ⟨?_, rfl, ?_, ?_⟩
  · intro label hlabel
    -- The label, if there is one, is made of the address of the listing.
    refine ⟨a, ?_⟩
    rw [Line.ofInstruction] at hlabel
    by_cases hstart : i.address = a
    · rw [if_pos hstart] at hlabel
      exact (Option.some.inj hlabel).symm
    · rw [if_neg hstart] at hlabel
      exact absurd hlabel (Option.not_mem_none _)
  · exact hlength ▸ i.opcode.length_pos
  · exact hlength ▸ i.opcode.length_le

/-- The instruction at the start of a listing has a labelled line. -/
theorem ofInstruction_mem_lines {i : Instruction} (hi : r.decodeAt m a = .ok i) :
    Line.ofInstruction (some (locationLabel a)) i ∈ (r.listing m a).lines := by
  rw [listing, Listing.ofRun]
  refine List.mem_map.mpr ⟨i, (walk_straightLine r m a).mem_of_decodeAt hi, ?_⟩
  rw [if_pos (address_of_decodeAt hi)]

/-- Lines of listings are known from their texts. Two of them, from whatever listings, have the
    same text just if they have the same label, the same address, the same bytes and the same
    text of the instruction. The text of the instruction begins at the same place in all of
    them: behind the label, which has a line of its own, there are 46 characters in front of
    it, none of them a line break. -/
theorem text_of_mem_lines (hl : l ∈ (r.listing m a).lines)
    (hl' : l' ∈ (r'.listing m' a').lines) :
    (l.text = l'.text ↔ l.label = l'.label ∧ l.address = l'.address ∧
      l.encoding = l'.encoding ∧ l.instructionText = l'.instructionText) ∧
    l.text = l.above ++ l.columns ++ l.instructionText ∧
    l.columns.length = 46 ∧ '\n' ∉ l.columns.toList ∧
    (l.above = "" ∨ ∃ label, l.label = some label ∧ l.above = label ++ ":\n") := by
  have h := plain_of_mem_lines hl
  have h' := plain_of_mem_lines hl'
  refine ⟨⟨h.text_inj h', ?_⟩, Line.text_of_comment_eq_none h.comment, h.length_columns,
    h.newline_not_mem_columns, ?_⟩
  · rintro ⟨hlabel, haddress, hencoding, hinstruction⟩
    rw [Line.text_of_comment_eq_none h.comment, Line.text_of_comment_eq_none h'.comment]
    simp only [Line.above, Line.columns, Line.encodingText, hlabel, haddress, hencoding,
      hinstruction]
  · rw [Line.above]
    cases l.label with
    | none => exact Or.inl rfl
    | some label => exact Or.inr ⟨label, rfl, rfl⟩

/-- The same push in two images, the one beginning with it and the other with a byte more. -/
theorem text_of_mem_lines_push : ∃ r,
    ofDefinition BuiltinRevision.tigress3.definition = .ok r ∧
    let m : Image := ⟨0x1000, #[0x60, 0xef, 0xbe, 0, 0, 0, 0, 0, 0, 0xb3], by decide⟩
    let m' : Image := ⟨0xfff, #[0xb3, 0x60, 0xef, 0xbe, 0, 0, 0, 0, 0, 0, 0xb3], by decide⟩
    ∃ l ∈ (r.listing m 0x1000).lines, ∃ l' ∈ (r.listing m' 0x1000).lines,
      l.text = "loc_1000:\n0000000000001000  60 ef be 00 00 00 00 00 00  loadq 0xbeef" ∧
      l'.text = "loc_1000:\n0000000000001000  60 ef be 00 00 00 00 00 00  loadq 0xbeef" ∧
      l.label = l'.label ∧ l.address = l'.address ∧ l.encoding = l'.encoding ∧
      l.instructionText = l'.instructionText ∧ l.columns.length = 46 := by
  rcases BuiltinRevision.exists_revision .tigress3 with ⟨r, hr⟩
  refine ⟨r, hr, ?_⟩
  intro m m'
  let push : Instruction :=
    ⟨0x1000, ⟨"loadq", .qword, .stackPush⟩, 0x60, [0xef, 0xbe, 0, 0, 0, 0, 0, 0]⟩
  have hpush : r.decodeAt m 0x1000 = .ok push :=
    decodeAt_of_entryOf? (i := push) hr (by decide) (by decide)
  have hpush' : r.decodeAt m' 0x1000 = .ok push :=
    decodeAt_of_entryOf? (i := push) hr (by decide) (by decide)
  have hl := ofInstruction_mem_lines hpush
  have hl' := ofInstruction_mem_lines hpush'
  have htext : (Line.ofInstruction (some (locationLabel 0x1000)) push).text =
      "loc_1000:\n0000000000001000  60 ef be 00 00 00 00 00 00  loadq 0xbeef" := by decide
  rcases text_of_mem_lines hl hl' with ⟨hsame, _, hcolumns, _⟩
  rcases hsame.mp rfl with ⟨hlabel, haddress, hencoding, hinstruction⟩
  exact ⟨_, hl, _, hl', htext, htext, hlabel, haddress, hencoding, hinstruction, hcolumns⟩

end Revision

end StackLift
