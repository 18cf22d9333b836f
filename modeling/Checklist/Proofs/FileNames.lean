import Checklist.Text.Surrogates
import Checklist.Proofs.Utf8Texts

/-!
# Names of files — every name is shown, and only texts are written

A raw text is written in UTF-8 exactly when it is a text (`asText_eq_ok_iff`,
`exists_asText_error`). A name of a file is bytes of any kind, and what it is shown as tells these
bytes again (`nameBytes_decodeName`). So different names are shown differently, and a name that is a
text is shown as this text (`decodeName_encode`).
-/

namespace Checklist

open Utf8

namespace RawText

/-! ## Raw texts as texts -/

/-- The text is read off from any position on. -/
theorem asTextFrom_ofText (position : Nat) (t : Text) : asTextFrom position (ofText t) = .ok t := by
  induction t generalizing position with
  | nil => rfl
  | cons c t ih =>
      show (asTextFrom (position + 1) (ofText t)).map (c :: ·) = .ok (c :: t)
      rw [ih]
      rfl

/-- What is read off is a text of which the raw text is made. -/
theorem eq_ofText_of_asTextFrom {position : Nat} {s : RawText} {t : Text}
    (h : asTextFrom position s = .ok t) : s = ofText t := by
  induction s generalizing position t with
  | nil =>
      obtain rfl := Except.ok.inj h
      rfl
  | cons a s ih =>
      cases a with
      | surrogate index => exact nomatch h
      | char c =>
          rw [asTextFrom] at h
          cases hrest : asTextFrom (position + 1) s with
          | error e =>
              rw [hrest] at h
              exact nomatch h
          | ok u =>
              rw [hrest] at h
              obtain rfl := Except.ok.inj h
              rw [ih hrest]
              rfl

/-- A raw text is written as a text exactly when it is one. -/
theorem asText_eq_ok_iff {s : RawText} {t : Text} : s.asText = .ok t ↔ s = ofText t := by
  constructor
  · exact eq_ofText_of_asTextFrom
  · rintro rfl
    exact asTextFrom_ofText 0 t

/-- The raw text of a text is written as that text. -/
@[simp]
theorem asText_ofText (t : Text) : (ofText t).asText = .ok t := asTextFrom_ofText 0 t

/-- Whether a raw text is a text. -/
def IsText (s : RawText) : Prop := ∃ t, s = ofText t

/-- A text is a text. -/
theorem isText_ofText (t : Text) : IsText (ofText t) := ⟨t, rfl⟩

/-- A raw text in two pieces is a text exactly when both pieces are. -/
theorem isText_append_iff {s t : RawText} : IsText (s ++ t) ↔ s.IsText ∧ t.IsText := by
  constructor
  · rintro ⟨u, h⟩
    obtain ⟨v, w, hv, hw, -⟩ := append_eq_ofText_iff.mp h
    exact ⟨⟨v, hv⟩, w, hw⟩
  · rintro ⟨⟨v, rfl⟩, w, rfl⟩
    exact ⟨v ++ w, (ofText_append v w).symm⟩

/-- What is no text is not written. -/
theorem exists_asText_error {s : RawText} (h : ¬s.IsText) : ∃ e, s.asText = .error e := by
  cases hs : s.asText with
  | error e => exact ⟨e, rfl⟩
  | ok t => exact absurd ⟨t, asText_eq_ok_iff.mp hs⟩ h

instance (s : RawText) : Decidable s.IsText :=
  match h : s.toText? with
  | some t => .isTrue ⟨t, toText?_eq_some_iff.mp h⟩
  | none => .isFalse fun ⟨_, ht⟩ => nomatch h.symm.trans (toText?_eq_some_iff.mpr ht)

/-! ## Names as bytes -/

/-- The bytes of a name that is a text are those of the text. -/
theorem nameBytes_ofText (t : Text) : nameBytes (ofText t) = encode t := by
  unfold nameBytes ofText encode
  rw [List.flatMap_map]
  rfl

/-- A byte is told by the surrogate that stands for it. -/
theorem charBytes_ofByte (b : UInt8) : charBytes (ofByte b) = [b] := by
  have hvalue : UInt8.ofNat (0x400 + b.toNat) = b := by
    rw [← UInt8.toNat_inj, UInt8.toNat_ofNat']
    have := b.toNat_lt
    omega
  show [UInt8.ofNat (0x400 + b.toNat)] = [b]
  rw [hvalue]

/-- A character takes one to four bytes. -/
theorem length_encodeChar_mem (c : Char) : (encodeChar c).length ∈ [1, 2, 3, 4] := by
  unfold encodeChar
  dsimp only
  split
  · simp
  · split
    · simp
    · split <;> simp

/-- Every character has bytes. -/
theorem encodeChar_ne_nil (c : Char) : encodeChar c ≠ [] := by
  intro hnil
  have hlength := length_encodeChar_mem c
  rw [hnil] at hlength
  exact absurd hlength (by decide)

/-- No character's bytes go on with more bytes to those of another. -/
theorem eq_of_encodeChar_append {c d : Char} {more : Bytes}
    (h : encodeChar c ++ more = encodeChar d) : c = d := by
  have hone : decodeFrom 0 (encodeChar d) = .ok [d] := by
    have hencode : encode [d] = encodeChar d := List.append_nil _
    rw [← hencode]
    exact decode_encode [d]
  rw [← h, decodeFrom_encodeChar] at hone
  cases hmore : decodeFrom (0 + (encodeChar c).length) more with
  | error e =>
      rw [hmore] at hone
      exact nomatch hone
  | ok rest =>
      rw [hmore] at hone
      exact (List.cons.inj (Except.ok.inj hone)).1

/-- Bytes begin with one character at most. -/
theorem encodeChar_append_inj {c d : Char} {s t : Bytes}
    (h : encodeChar c ++ s = encodeChar d ++ t) : c = d := by
  rcases List.append_eq_append_iff.mp h with ⟨more, hmore, -⟩ | ⟨more, hmore, -⟩
  · exact eq_of_encodeChar_append hmore.symm
  · exact (eq_of_encodeChar_append hmore.symm).symm

/-- The character that is found stands at the start of the bytes. -/
theorem eq_of_firstChar? {bytes : Bytes} {c : Char} (h : firstChar? bytes = some c) :
    ∃ rest, bytes = encodeChar c ++ rest := by
  obtain ⟨size, -, hsize⟩ := List.exists_of_findSome?_eq_some h
  split at hsize
  · next found hdecode =>
      obtain rfl := Option.some.inj hsize
      have hencode := encode_of_decode hdecode
      refine ⟨bytes.drop size, ?_⟩
      rw [encode, List.flatMap_singleton] at hencode
      rw [hencode, List.take_append_drop]
  · exact nomatch hsize

/-- By induction on the bytes, of which the first may belong to the character before. -/
theorem nameBytes_decodeNameFrom (skip : Nat) (bytes : Bytes) :
    nameBytes (decodeNameFrom skip bytes) = bytes.drop skip := by
  induction bytes generalizing skip with
  | nil => rw [decodeNameFrom, List.drop_nil]; rfl
  | cons a s ih =>
      cases skip with
      | succ skip => exact ih skip
      | zero =>
          rw [decodeNameFrom]
          cases hfirst : firstChar? (a :: s) with
          | none =>
              show charBytes (ofByte a) ++ nameBytes (decodeNameFrom 0 s) = a :: s
              rw [charBytes_ofByte, ih]
              rfl
          | some c =>
              obtain ⟨rest, hrest⟩ := eq_of_firstChar? hfirst
              show encodeChar c ++ nameBytes (decodeNameFrom _ s) = a :: s
              rw [ih]
              cases hbytes : encodeChar c with
              | nil => exact absurd hbytes (encodeChar_ne_nil c)
              | cons b more =>
                  -- The first byte is the one that was taken, and the others are passed over.
                  rw [hbytes, List.cons_append] at hrest
                  obtain ⟨rfl, rfl⟩ := List.cons.inj hrest
                  rw [List.length_cons, Nat.add_sub_cancel, List.drop_left, List.cons_append]

/-- The bytes of a name are told by what it is shown as. -/
theorem nameBytes_decodeName (bytes : Bytes) : nameBytes (decodeName bytes) = bytes :=
  nameBytes_decodeNameFrom 0 bytes

/-- Different names are shown differently. -/
theorem decodeName_injective {a b : Bytes} (h : decodeName a = decodeName b) : a = b := by
  rw [← nameBytes_decodeName a, h, nameBytes_decodeName]

/-- The names of a location are told by what they are shown as. -/
theorem map_nameBytes_decodeName (location : List Bytes) :
    (location.map decodeName).map nameBytes = location := by
  rw [List.map_map]
  exact (List.map_congr_left fun name _ => nameBytes_decodeName name).trans (List.map_id location)

/-- A character that the bytes begin with is found. -/
theorem firstChar?_encodeChar (c : Char) (rest : Bytes) :
    firstChar? (encodeChar c ++ rest) = some c := by
  have htake : decode ((encodeChar c ++ rest).take (encodeChar c).length) = .ok [c] := by
    have hencode : encode [c] = encodeChar c := List.append_nil _
    rw [List.take_left, ← hencode, decode_encode]
  have hsome : (firstChar? (encodeChar c ++ rest)).isSome := by
    unfold firstChar?
    refine List.findSome?_isSome_iff.mpr ⟨_, length_encodeChar_mem c, ?_⟩
    rw [htake]
    rfl
  obtain ⟨d, hd⟩ := Option.isSome_iff_exists.mp hsome
  obtain ⟨_, hrest⟩ := eq_of_firstChar? hd
  rw [hd, encodeChar_append_inj hrest]

/-- Bytes of the character before are passed over. -/
theorem decodeNameFrom_append (before s : Bytes) :
    decodeNameFrom before.length (before ++ s) = decodeNameFrom 0 s := by
  induction before with
  | nil => rfl
  | cons b before ih => exact ih

/-- A name that is a text is shown as this text. -/
theorem decodeName_encode (t : Text) : decodeName (encode t) = ofText t := by
  unfold decodeName
  induction t with
  | nil => rfl
  | cons c t ih =>
      have hfirst := firstChar?_encodeChar c (encode t)
      show decodeNameFrom 0 (encodeChar c ++ encode t) = .char c :: ofText t
      cases hbytes : encodeChar c with
      | nil => exact absurd hbytes (encodeChar_ne_nil c)
      | cons b more =>
          rw [hbytes, List.cons_append] at hfirst
          rw [List.cons_append, decodeNameFrom, hfirst]
          show RawChar.char c :: decodeNameFrom _ (more ++ encode t) = _
          rw [hbytes, List.length_cons, Nat.add_sub_cancel, decodeNameFrom_append, ih]

end RawText

end Checklist
