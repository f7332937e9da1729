/-
What arrives of a text that crosses to the host and back. The code page is
a bijection with the first 256 code points, so a character below U+0100
arrives as itself and every other one as the substitute, U+001A. `carried`
is a text after that crossing.

A field cuts a text off at its width and fills it up with blanks, and the
blanks and NULs at its end are dropped again, whoever put them there
(`toList_decodeField_encodeField`). So what crosses a field unchanged is a
text that fits it, has codes for all its characters and ends in no filler;
the names are such texts (`Name.field_of_parts`).
-/
import Mathlib.Data.FinEnum
import Mathlib.Data.List.DropRight
import TsoBridge.Field
import TsoBridge.Name.Basic

namespace TsoBridge

namespace CodePage

-- ========================================================= characters

/-- The character that arrives for `c`. -/
def carry (c : Char) : Char :=
  if c.toNat < 256 then c else Char.ofNat 0x1A

/-- The text that arrives for `s`. -/
def carried (s : String) : String :=
  String.ofList (s.toList.map carry)

/-- Each code point comes back from its byte. The entries are read off in one
pass, and looked up by rows of sixteen: counting each from zero takes as many
steps as there are codes. -/
theorem latinTable_codeTable {n : Nat} (h : n < 256) :
    (latinTable.getD (codeTable.getD n 0).toNat 0).toNat = n := by
  have hall : codeTable.toList.map (fun byte =>
      ((latinTable.toList.drop (16 * (byte.toNat / 16))).getD (byte.toNat % 16) 0).toNat)
        = List.range 256 := by
    decide +kernel
  have hn := congrArg (fun values => values[n]?) hall
  simp only [List.getElem?_map, List.getElem?_range h] at hn
  obtain ⟨byte, hbyte, hvalue⟩ := Option.map_eq_some_iff.mp hn
  have hcode : codeTable.getD n 0 = byte := by
    rw [Array.getD_eq_getD_getElem?, ← Array.getElem?_toList, hbyte]
    rfl
  rw [List.getD_eq_getElem?_getD, List.getElem?_drop, Nat.div_add_mod] at hvalue
  rw [hcode, Array.getD_eq_getD_getElem?, ← Array.getElem?_toList]
  exact hvalue

/-- Each byte comes back from its code point: there are as many of the one as
of the other. -/
theorem codeTable_latinTable {n : Nat} (h : n < 256) :
    (codeTable.getD (latinTable.getD n 0).toNat 0).toNat = n := by
  have hleft : Function.LeftInverse (fun byte : UInt8 => latinTable.getD byte.toNat 0)
      fun byte : UInt8 => codeTable.getD byte.toNat 0 :=
    fun byte => UInt8.toNat_inj.mp (latinTable_codeTable byte.toNat_lt)
  have hright := hleft.rightInverse_of_card_le le_rfl (UInt8.ofNat n)
  have hback := congrArg UInt8.toNat hright
  rwa [UInt8.toNat_ofNat_of_lt' h] at hback

theorem toNat_toChar (byte : UInt8) :
    (toChar byte).toNat = (latinTable.getD byte.toNat 0).toNat := by
  have hlt := (latinTable.getD byte.toNat 0).toNat_lt
  unfold toChar
  generalize (latinTable.getD byte.toNat 0).toNat = code at hlt ⊢
  have hvalid : code.isValidChar := .inl (by omega)
  rw [Char.ofNat, dif_pos hvalid]
  rfl

/-- Every byte comes back from its character. -/
theorem ofChar_toChar (byte : UInt8) : ofChar (toChar byte) = byte := by
  unfold ofChar
  rw [toNat_toChar, if_pos (UInt8.toNat_lt _)]
  exact UInt8.toNat_inj.mp (codeTable_latinTable byte.toNat_lt)

theorem toChar_ofChar (c : Char) : toChar (ofChar c) = carry c := by
  unfold ofChar carry
  split
  · next h =>
    unfold toChar
    rw [latinTable_codeTable h, Char.ofNat_toNat]
  · decide +kernel

/-- Bytes that are read as a text are the bytes of that text. -/
theorem encode_decode (bytes : Bytes) : encode (decode bytes) = bytes := by
  have hid : ofChar ∘ toChar = id := by
    funext byte
    rw [Function.comp_apply, ofChar_toChar, id]
  unfold encode decode
  rw [String.toList_ofList, List.map_map, hid, List.map_id]

/-- A text that crosses and comes back is the text that arrives. -/
theorem decode_encode (s : String) : decode (encode s) = carried s := by
  have hmap : (s.toList.map ofChar).map toChar = s.toList.map carry := by
    rw [List.map_map]
    refine List.map_congr_left fun c _ => ?_
    rw [Function.comp_apply, toChar_ofChar]
  unfold decode encode carried
  rw [hmap]

theorem carry_of_lt {c : Char} (h : c.toNat < 256) : carry c = c :=
  if_pos h

/-- A character other than the substitute arrives for itself alone. -/
theorem carry_eq_iff {c d : Char} (hd : d.toNat < 256) (hne : d ≠ Char.ofNat 0x1A) :
    carry c = d ↔ c = d := by
  unfold carry
  split
  · exact Iff.rfl
  · next hc =>
    constructor
    · intro h
      exact absurd h.symm hne
    · rintro rfl
      exact absurd hd hc

theorem toList_carried (s : String) : (carried s).toList = s.toList.map carry :=
  String.toList_ofList

theorem carried_append (s t : String) : carried (s ++ t) = carried s ++ carried t := by
  apply String.toList_inj.mp
  rw [toList_carried, String.toList_append, String.toList_append, List.map_append,
    toList_carried, toList_carried]

theorem carried_of_latin {s : String} (h : ∀ c ∈ s.toList, c.toNat < 256) :
    carried s = s := by
  apply String.toList_inj.mp
  rw [toList_carried, List.map_congr_left fun c hc => carry_of_lt (h c hc), List.map_id']

theorem length_encode (s : String) : (encode s).length = s.toList.length :=
  List.length_map _

-- ============================================================== fields

/-- Whether a character is filler at the end of a field: a blank or a
NUL. -/
def isFiller (c : Char) : Bool :=
  c == ' ' || c == Char.ofNat 0

/-- A byte is filler exactly if its character is. -/
theorem isFiller_toChar (byte : UInt8) :
    isFiller (toChar byte) = (byte == space || byte == 0) := by
  -- distinct bytes stand for distinct characters
  have hinj : ∀ other, (toChar byte == toChar other) = (byte == other) := by
    intro other
    rw [Bool.eq_iff_iff, beq_iff_eq, beq_iff_eq]
    constructor
    · intro h
      rw [← ofChar_toChar byte, h, ofChar_toChar]
    · rintro rfl
      rfl
  have hspace : toChar space = ' ' := by decide +kernel
  have hnul : toChar 0 = Char.ofNat 0 := by decide +kernel
  unfold isFiller
  rw [← hspace, ← hnul, hinj, hinj]

/-- What is dropped at the end of a list that was mapped. -/
theorem rdropWhile_map {α β : Type} (f : α → β) (p : β → Bool) (l : List α) :
    (l.map f).rdropWhile p = (l.rdropWhile (p ∘ f)).map f := by
  unfold List.rdropWhile
  rw [← List.map_reverse, List.dropWhile_map, List.map_reverse]

/-- The blanks that fill a field up are dropped with the filler before
them. -/
theorem rdropWhile_fill {p : UInt8 → Bool} (hp : p space = true) (width : Nat) (bytes : Bytes) :
    (fill width bytes).rdropWhile p = bytes.rdropWhile p := by
  unfold fill List.rdropWhile
  rw [List.reverse_append, List.reverse_replicate, List.dropWhile_append_of_pos]
  intro byte hbyte
  rw [List.eq_of_mem_replicate hbyte]
  exact hp

@[simp] theorem length_encodeField (width : Nat) (s : String) :
    (encodeField width s).length = width := by
  unfold encodeField fill
  simp only [List.length_append, List.length_replicate, List.length_map, List.length_take]
  omega

/-- What arrives of a text in a field: its first characters, without the
blanks and NULs they end in. -/
theorem toList_decodeField_encodeField (width : Nat) (s : String) :
    (decodeField (encodeField width s)).toList
      = ((s.toList.take width).map carry).rdropWhile isFiller := by
  let filler : UInt8 → Bool := fun byte => byte == space || byte == 0
  -- a character is dropped in the field exactly if what arrives of it is filler
  have hfiller : filler ∘ ofChar = isFiller ∘ carry := by
    funext c
    show filler (ofChar c) = isFiller (carry c)
    rw [← toChar_ofChar, isFiller_toChar]
  have hfield : (encodeField width s).rdropWhile filler
      = ((s.toList.take width).rdropWhile (filler ∘ ofChar)).map ofChar := by
    unfold encodeField
    rw [rdropWhile_fill rfl, rdropWhile_map]
  have hdecode : (decodeField (encodeField width s)).toList
      = ((encodeField width s).rdropWhile filler).map toChar :=
    String.toList_ofList
  rw [hdecode, hfield, List.map_map, rdropWhile_map, hfiller]
  refine List.map_congr_left fun c _ => ?_
  rw [Function.comp_apply, toChar_ofChar]

/-- A text that fits a field and does not end in a blank or a NUL crosses
the field unchanged. -/
theorem decodeField_encodeField {width : Nat} {s : String} (hlength : s.toList.length ≤ width)
    (hlatin : ∀ c ∈ s.toList, c.toNat < 256)
    (hlast : ∀ c ∈ s.toList.getLast?, ofChar c ≠ space ∧ ofChar c ≠ 0) :
    decodeField (encodeField width s) = s := by
  have hsame : s.toList.map carry = s.toList := by
    rw [List.map_congr_left fun c hc => carry_of_lt (hlatin c hc), List.map_id']
  apply String.toList_inj.mp
  rw [toList_decodeField_encodeField, List.take_of_length_le hlength, hsame,
    List.rdropWhile_eq_self_iff]
  intro hne hfiller
  have hmem := List.getLast_mem hne
  obtain ⟨hspace, hnul⟩ := hlast _ (List.getLast?_eq_some_getLast hne)
  rw [← carry_of_lt (hlatin _ hmem), ← toChar_ofChar, isFiller_toChar] at hfiller
  simp [hspace, hnul] at hfiller

end CodePage

namespace Name

/-- No character of a name is filler of a field. -/
theorem isPart_ne_filler {c : Char} (h : isPart c = true) :
    CodePage.ofChar c ≠ CodePage.space ∧ CodePage.ofChar c ≠ 0 := by
  have hlatin : c.toNat < 256 := by
    have := isPart_lt h
    omega
  have hname : CodePage.isFiller c = false := by
    unfold CodePage.isFiller
    rw [Bool.or_eq_false_iff, beq_eq_false_iff_ne, beq_eq_false_iff_ne]
    constructor
    · rintro rfl
      exact absurd h (by decide)
    · rintro rfl
      exact absurd h (by decide)
  have hbyte := CodePage.isFiller_toChar (CodePage.ofChar c)
  rw [CodePage.toChar_ofChar, CodePage.carry_of_lt hlatin, hname] at hbyte
  simpa using hbyte.symm

/-- A field of eight bytes carries up to eight characters of names. -/
theorem field_of_parts {name : String} (hlength : name.toList.length ≤ 8)
    (hparts : ∀ c ∈ name.toList, isPart c = true) :
    CodePage.decodeField (CodePage.encodeField 8 name) = name := by
  apply CodePage.decodeField_encodeField hlength
  · intro c hc
    have := isPart_lt (hparts c hc)
    omega
  · intro c hc
    exact isPart_ne_filler (hparts c (List.mem_of_getLast? hc))

end Name

/-- The name of a DD crosses to the host unchanged. -/
theorem DdName.field (name : DdName) :
    CodePage.decodeField (CodePage.encodeField 8 name.text) = name.text :=
  Name.field_of_parts name.length_le name.isPart_of_mem

-- ============================================================== theorem

open CodePage in
/-- Bytes come back from the text they stand for, and a text from its bytes
with the substitute in place of every character above U+00FF. A field has
its width, and what arrives in it are the first characters of the text, so
replaced, without the blanks and NULs they end in. A DD name arrives in
eight bytes as it was. -/
theorem CodePage.crossings_exact :
    (∀ bytes, encode (decode bytes) = bytes)
      ∧ (∀ s, decode (encode s) = carried s)
      ∧ (∀ s width, (encodeField width s).length = width
          ∧ (decodeField (encodeField width s)).toList
            = ((s.toList.take width).map carry).rdropWhile isFiller
          ∧ (width ≤ Word.runLimit → Field.ofText width s = .ok (encodeField width s)))
      ∧ ∀ name, Name.checkDdname name = .ok () → decodeField (encodeField 8 name) = name := by
  refine ⟨encode_decode, decode_encode, fun s width => ⟨?_, ?_, fun hwidth => ?_⟩,
    fun name hname => ?_⟩
  · exact length_encodeField width s
  · exact toList_decodeField_encodeField width s
  · have hrun : Word.checkRun width = .ok () := if_pos hwidth
    unfold Field.ofText
    rw [hrun]
    rfl
  · obtain ⟨-, hlength, hparts⟩ := Name.ddname_of_no_flaw (Name.checkDdname_ok hname)
    exact Name.field_of_parts hlength hparts

open CodePage in
/-- Of five characters one has no code and three are filler at the end. -/
theorem CodePage.crossings_exact_filler :
    let s := String.ofList ['\u00C9', '\u20AC', ' ', '\u0000', ' ', 'X']
    5 ≤ Word.runLimit ∧ Field.ofText 5 s = .ok [0x71, 0x3F, 0x40, 0x00, 0x40]
      ∧ (decodeField [0x71, 0x3F, 0x40, 0x00, 0x40]).toList = ['\u00C9', '\u001A']
      ∧ Name.checkDdname "$out1" = .ok () ∧ decodeField (encodeField 8 "$out1") = "$out1" := by
  intro s
  obtain ⟨-, -, hfield, hname⟩ := crossings_exact
  obtain ⟨-, harrives, hmade⟩ := hfield s 5
  have hbytes : encodeField 5 s = [0x71, 0x3F, 0x40, 0x00, 0x40] := by decide +kernel
  have hddname : Name.checkDdname "$out1" = .ok () := by decide +kernel
  have hrun : 5 ≤ Word.runLimit := by decide
  rw [hbytes] at harrives hmade
  refine ⟨hrun, hmade hrun, ?_, hddname, hname "$out1" hddname⟩
  rw [harrives]
  decide +kernel

end TsoBridge
