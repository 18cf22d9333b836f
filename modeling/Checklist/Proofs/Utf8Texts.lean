import Checklist.Text.Utf8
import Checklist.Text.Lines

/-!
# Texts in UTF-8 — what is written to a file is read again

The bytes of a character are decoded as that character, whatever follows (`decodeFrom_encodeChar`),
so the bytes of a text are decoded as the text (`decode_encode`). They are the only bytes that are:
no text is written in two ways (`encode_of_decode`). A text whose newlines are unified holds no
carriage return, and unifying them again changes nothing.
-/

namespace Checklist

namespace Utf8

/-! ## Bytes by their number -/

/-- A number below 256 is kept in a byte. -/
theorem toNat_byte {n : Nat} (h : n < 0x100) : (UInt8.ofNat n).toNat = n := by
  rw [UInt8.toNat_ofNat']
  exact Nat.mod_eq_of_lt h

/-- Bytes are compared as the numbers in them. -/
theorem byte_lt_iff {n : Nat} (h : n < 0x100) (b : UInt8) : UInt8.ofNat n < b ↔ n < b.toNat :=
  UInt8.ofNat_lt_iff h

/-- The same with the sides exchanged. -/
theorem le_byte_iff {n : Nat} (h : n < 0x100) (b : UInt8) : b ≤ UInt8.ofNat n ↔ b.toNat ≤ n := by
  rw [UInt8.le_iff_toNat_le, toNat_byte h]

/-- A byte is known by its number. -/
theorem byte_eq_iff {n : Nat} (h : n < 0x100) (b : UInt8) : UInt8.ofNat n = b ↔ n = b.toNat := by
  rw [← UInt8.toNat_inj, toNat_byte h]

/-- A byte that is no ASCII character but may begin one. -/
theorem isLead_byte {n : Nat} (hlo : 0xC2 ≤ n) (hhi : n < 0xF5) :
    ¬UInt8.ofNat n < 0x80 ∧
      ¬((decide (UInt8.ofNat n < 0xC2) || decide (0xF5 ≤ UInt8.ofNat n)) = true) := by
  have hlt : n < 0x100 := by omega
  rw [Bool.or_eq_true, decide_eq_true_eq, decide_eq_true_eq, byte_lt_iff hlt, byte_lt_iff hlt,
    le_byte_iff hlt, not_or]
  refine ⟨?_, ?_, ?_⟩
  · show ¬n < 0x80
    omega
  · show ¬n < 0xC2
    omega
  · show ¬0xF5 ≤ n
    omega

/-- A continuing byte and its payload. -/
theorem isTail_byte {y : Nat} (hy : y < 0x40) : isTail (UInt8.ofNat (0x80 + y)) = true := by
  have hlt : 0x80 + y < 0x100 := by omega
  rw [isTail, Bool.and_eq_true, decide_eq_true_eq, decide_eq_true_eq, byte_lt_iff hlt,
    le_byte_iff hlt]
  refine ⟨?_, ?_⟩
  · show 0x80 ≤ 0x80 + y
    omega
  · show 0x80 + y < 0xC0
    omega

/-- The payload of a continuing byte is what was put into it. -/
theorem payload_byte {y : Nat} (hy : y < 0x40) : payload (UInt8.ofNat (0x80 + y)) = y := by
  rw [payload, toNat_byte (by omega)]
  omega

/-- A byte that may follow the first of three or four. -/
theorem isSecond_byte {n y : Nat} (hn : n < 0x100) (hy : y < 0x40) (hE0 : n = 0xE0 → 0x20 ≤ y)
    (hED : n = 0xED → y < 0x20) (hF0 : n = 0xF0 → 0x10 ≤ y) (hF4 : n = 0xF4 → y < 0x10) :
    isSecond (UInt8.ofNat n) (UInt8.ofNat (0x80 + y)) = true := by
  have hlt : 0x80 + y < 0x100 := by omega
  simp only [isSecond, isTail_byte hy, byte_eq_iff hn, byte_lt_iff hlt, le_byte_iff hlt,
    Bool.true_and, Bool.and_eq_true, Bool.not_eq_true', Bool.and_eq_false_iff,
    decide_eq_false_iff_not]
  refine ⟨⟨⟨?_, ?_⟩, ?_⟩, ?_⟩
  · show ¬n = 0xE0 ∨ ¬0x80 + y < 0xA0
    omega
  · show ¬n = 0xED ∨ ¬0xA0 ≤ 0x80 + y
    omega
  · show ¬n = 0xF0 ∨ ¬0x80 + y < 0x90
    omega
  · show ¬n = 0xF4 ∨ ¬0x90 ≤ 0x80 + y
    omega

/-! ## Characters of one to four bytes -/

/-- A byte below 80 is an ASCII character. -/
theorem decodeFrom_one {n : Nat} (hn : n < 0x80) (position : Nat) (s : Bytes) :
    decodeFrom position (UInt8.ofNat n :: s) =
      (decodeFrom (position + 1) s).map (Char.ofNat n :: ·) := by
  have hlt : n < 0x100 := by omega
  have hcond : UInt8.ofNat n < 0x80 := (byte_lt_iff hlt _).mpr hn
  rw [decodeFrom.eq_def]
  simp only [if_pos hcond]
  rw [toNat_byte hlt]

/-- Two bytes are a character of eleven bits that needs them. -/
theorem decodeFrom_two {x y : Nat} (hlow : 2 ≤ x) (hx : x < 0x20) (hy : y < 0x40) (position : Nat)
    (s : Bytes) :
    decodeFrom position (UInt8.ofNat (0xC0 + x) :: UInt8.ofNat (0x80 + y) :: s) =
      (decodeFrom (position + 2) s).map (Char.ofNat (x * 0x40 + y) :: ·) := by
  have hlt : 0xC0 + x < 0x100 := by omega
  obtain ⟨hascii, hlead⟩ := isLead_byte (n := 0xC0 + x) (by omega) (by omega)
  have hshort : UInt8.ofNat (0xC0 + x) < 0xE0 := by
    rw [byte_lt_iff hlt]
    show 0xC0 + x < 0xE0
    omega
  have hvalue : (0xC0 + x) % 0x20 * 0x40 + y = x * 0x40 + y := by omega
  rw [decodeFrom.eq_def]
  simp only [if_neg hascii, if_neg hlead, if_pos hshort, isTail_byte hy, if_true, payload_byte hy,
    toNat_byte hlt, hvalue]

/-- Three bytes are a character of sixteen bits that needs them and is no surrogate. -/
theorem decodeFrom_three {x y z : Nat} (hx : x < 0x10) (hy : y < 0x40) (hz : z < 0x40)
    (hlow : x = 0 → 0x20 ≤ y) (hsurrogate : x = 0xD → y < 0x20) (position : Nat) (s : Bytes) :
    decodeFrom position
        (UInt8.ofNat (0xE0 + x) :: UInt8.ofNat (0x80 + y) :: UInt8.ofNat (0x80 + z) :: s) =
      (decodeFrom (position + 3) s).map (Char.ofNat (x * 0x1000 + y * 0x40 + z) :: ·) := by
  have hlt : 0xE0 + x < 0x100 := by omega
  obtain ⟨hascii, hlead⟩ := isLead_byte (n := 0xE0 + x) (by omega) (by omega)
  -- The first byte is too high for a pair and too low for four bytes.
  have hshort : ¬UInt8.ofNat (0xE0 + x) < 0xE0 := by
    rw [byte_lt_iff hlt]
    show ¬0xE0 + x < 0xE0
    omega
  have hmiddle : UInt8.ofNat (0xE0 + x) < 0xF0 := by
    rw [byte_lt_iff hlt]
    show 0xE0 + x < 0xF0
    omega
  have hsecond : isSecond (UInt8.ofNat (0xE0 + x)) (UInt8.ofNat (0x80 + y)) = true :=
    isSecond_byte hlt hy (by omega) (by omega) (by omega) (by omega)
  have hvalue : (0xE0 + x) % 0x10 * 0x1000 + y * 0x40 + z = x * 0x1000 + y * 0x40 + z := by omega
  rw [decodeFrom.eq_def]
  simp only [if_neg hascii, if_neg hlead, if_neg hshort, hsecond, isTail_byte hz, if_pos hmiddle,
    payload_byte hy, payload_byte hz, toNat_byte hlt, hvalue, Bool.not_true, Bool.false_eq_true,
    if_false]

/-- Four bytes are a character above the first plane and not above the last. -/
theorem decodeFrom_four {x y z w : Nat} (hx : x ≤ 4) (hy : y < 0x40) (hz : z < 0x40) (hw : w < 0x40)
    (hlow : x = 0 → 0x10 ≤ y) (hhigh : x = 4 → y < 0x10) (position : Nat) (s : Bytes) :
    decodeFrom position (UInt8.ofNat (0xF0 + x) :: UInt8.ofNat (0x80 + y) ::
        UInt8.ofNat (0x80 + z) :: UInt8.ofNat (0x80 + w) :: s) =
      (decodeFrom (position + 4) s).map
        (Char.ofNat (x * 0x40000 + y * 0x1000 + z * 0x40 + w) :: ·) := by
  have hlt : 0xF0 + x < 0x100 := by omega
  obtain ⟨hascii, hlead⟩ := isLead_byte (n := 0xF0 + x) (by omega) (by omega)
  -- The first byte is too high for a pair and for three bytes.
  have hshort : ¬UInt8.ofNat (0xF0 + x) < 0xE0 := by
    rw [byte_lt_iff hlt]
    show ¬0xF0 + x < 0xE0
    omega
  have hmiddle : ¬UInt8.ofNat (0xF0 + x) < 0xF0 := by
    rw [byte_lt_iff hlt]
    show ¬0xF0 + x < 0xF0
    omega
  have hsecond : isSecond (UInt8.ofNat (0xF0 + x)) (UInt8.ofNat (0x80 + y)) = true :=
    isSecond_byte hlt hy (by omega) (by omega) (by omega) (by omega)
  have hvalue : (0xF0 + x) % 0x8 * 0x40000 + y * 0x1000 + z * 0x40 + w =
      x * 0x40000 + y * 0x1000 + z * 0x40 + w := by omega
  rw [decodeFrom.eq_def]
  simp only [if_neg hascii, if_neg hlead, if_neg hshort, hsecond, isTail_byte hz, isTail_byte hw,
    if_neg hmiddle, payload_byte hy, payload_byte hz, payload_byte hw, toNat_byte hlt, hvalue,
    Bool.not_true, Bool.false_eq_true, if_false]

/-! ## Texts -/

/-- The bytes of a character are decoded as that character. -/
theorem decodeFrom_encodeChar (position : Nat) (c : Char) (s : Bytes) :
    decodeFrom position (encodeChar c ++ s) =
      (decodeFrom (position + (encodeChar c).length) s).map (c :: ·) := by
  -- No character is a surrogate, which is what the second byte of three is checked for.
  have hvalid : c.toNat < 0xD800 ∨ 0xDFFF < c.toNat ∧ c.toNat < 0x110000 := c.valid
  have hchar : Char.ofNat c.toNat = c := Char.ofNat_toNat c
  rw [encodeChar]
  split
  · next h₁ =>
      rw [List.cons_append, decodeFrom_one h₁, hchar]
      rfl
  · next h₁ =>
      split
      · next h₂ =>
          have hvalue : c.toNat / 0x40 * 0x40 + c.toNat % 0x40 = c.toNat := by omega
          rw [List.cons_append, List.cons_append, decodeFrom_two (by omega) (by omega) (by omega),
            hvalue, hchar]
          rfl
      · next h₂ =>
          split
          · next h₃ =>
              have hvalue : c.toNat / 0x1000 * 0x1000 + c.toNat / 0x40 % 0x40 * 0x40 +
                  c.toNat % 0x40 = c.toNat := by omega
              rw [List.cons_append, List.cons_append, List.cons_append,
                decodeFrom_three (by omega) (by omega) (by omega) (by omega) (by omega), hvalue,
                hchar]
              rfl
          · next h₃ =>
              have hvalue : c.toNat / 0x40000 * 0x40000 + c.toNat / 0x1000 % 0x40 * 0x1000 +
                  c.toNat / 0x40 % 0x40 * 0x40 + c.toNat % 0x40 = c.toNat := by omega
              rw [List.cons_append, List.cons_append, List.cons_append, List.cons_append,
                decodeFrom_four (by omega) (by omega) (by omega) (by omega) (by omega) (by omega),
                hvalue, hchar]
              rfl

/-- The UTF-8 form of a text is decoded to the text, at whatever position it stands. -/
theorem decodeFrom_encode (position : Nat) (s : Text) : decodeFrom position (encode s) = .ok s := by
  induction s generalizing position with
  | nil => rfl
  | cons c s ih =>
      show decodeFrom position (encodeChar c ++ encode s) = _
      rw [decodeFrom_encodeChar, ih]
      rfl

/-- The bytes of a text are decoded as the text. -/
theorem decode_encode (s : Text) : decode (encode s) = .ok s := decodeFrom_encode 0 s

/-! ## Bytes that are texts -/

/-- The number of a character that was made from it. -/
theorem toNat_ofNat {n : Nat} (h : n < 0xD800 ∨ 0xDFFF < n ∧ n < 0x110000) :
    (Char.ofNat n).toNat = n := by
  rw [Char.ofNat, dif_pos h]
  rfl

/-- An ASCII character takes one byte. -/
theorem encodeChar_ofNat_one {n : Nat} (hn : n < 0x80) :
    encodeChar (Char.ofNat n) = [UInt8.ofNat n] := by
  rw [encodeChar, toNat_ofNat (by omega)]
  exact if_pos hn

/-- A character of up to eleven bits takes two bytes, if one is not enough. -/
theorem encodeChar_ofNat_two {x y : Nat} (hlow : 2 ≤ x) (hx : x < 0x20) (hy : y < 0x40) :
    encodeChar (Char.ofNat (x * 0x40 + y)) = [UInt8.ofNat (0xC0 + x), UInt8.ofNat (0x80 + y)] := by
  have hfirst : (x * 0x40 + y) / 0x40 = x := by omega
  have hlast : (x * 0x40 + y) % 0x40 = y := by omega
  have hone : ¬x * 0x40 + y < 0x80 := by omega
  have htwo : x * 0x40 + y < 0x800 := by omega
  rw [encodeChar, toNat_ofNat (by omega)]
  simp only [if_neg hone, if_pos htwo, hfirst, hlast]

/-- A character of up to sixteen bits takes three bytes, if two are not enough. -/
theorem encodeChar_ofNat_three {x y z : Nat} (hx : x < 0x10) (hy : y < 0x40) (hz : z < 0x40)
    (hlow : x = 0 → 0x20 ≤ y) (hsurrogate : x = 0xD → y < 0x20) :
    encodeChar (Char.ofNat (x * 0x1000 + y * 0x40 + z)) =
      [UInt8.ofNat (0xE0 + x), UInt8.ofNat (0x80 + y), UInt8.ofNat (0x80 + z)] := by
  have hfirst : (x * 0x1000 + y * 0x40 + z) / 0x1000 = x := by omega
  have hsecond : (x * 0x1000 + y * 0x40 + z) / 0x40 % 0x40 = y := by omega
  have hlast : (x * 0x1000 + y * 0x40 + z) % 0x40 = z := by omega
  have hone : ¬x * 0x1000 + y * 0x40 + z < 0x80 := by omega
  have htwo : ¬x * 0x1000 + y * 0x40 + z < 0x800 := by omega
  have hthree : x * 0x1000 + y * 0x40 + z < 0x10000 := by omega
  rw [encodeChar, toNat_ofNat (by omega)]
  simp only [if_neg hone, if_neg htwo, if_pos hthree, hfirst, hsecond, hlast]

/-- Every other character takes four bytes. -/
theorem encodeChar_ofNat_four {x y z w : Nat} (hx : x ≤ 4) (hy : y < 0x40) (hz : z < 0x40)
    (hw : w < 0x40) (hlow : x = 0 → 0x10 ≤ y) (hhigh : x = 4 → y < 0x10) :
    encodeChar (Char.ofNat (x * 0x40000 + y * 0x1000 + z * 0x40 + w)) =
      [UInt8.ofNat (0xF0 + x), UInt8.ofNat (0x80 + y), UInt8.ofNat (0x80 + z),
        UInt8.ofNat (0x80 + w)] := by
  have hfirst : (x * 0x40000 + y * 0x1000 + z * 0x40 + w) / 0x40000 = x := by omega
  have hsecond : (x * 0x40000 + y * 0x1000 + z * 0x40 + w) / 0x1000 % 0x40 = y := by omega
  have hthird : (x * 0x40000 + y * 0x1000 + z * 0x40 + w) / 0x40 % 0x40 = z := by omega
  have hlast : (x * 0x40000 + y * 0x1000 + z * 0x40 + w) % 0x40 = w := by omega
  have hone : ¬x * 0x40000 + y * 0x1000 + z * 0x40 + w < 0x80 := by omega
  have htwo : ¬x * 0x40000 + y * 0x1000 + z * 0x40 + w < 0x800 := by omega
  have hthree : ¬x * 0x40000 + y * 0x1000 + z * 0x40 + w < 0x10000 := by omega
  rw [encodeChar, toNat_ofNat (by omega)]
  simp only [if_neg hone, if_neg htwo, if_neg hthree, hfirst, hsecond, hthird, hlast]

/-- A continuing byte is the one with its payload. -/
theorem tail_eq {b : UInt8} (h : isTail b = true) :
    payload b < 0x40 ∧ UInt8.ofNat (0x80 + payload b) = b := by
  rw [isTail, Bool.and_eq_true, decide_eq_true_eq, decide_eq_true_eq, UInt8.le_iff_toNat_le,
    UInt8.lt_iff_toNat_lt] at h
  have hlow : 0x80 ≤ b.toNat := h.1
  have hhigh : b.toNat < 0xC0 := h.2
  have hvalue : 0x80 + b.toNat % 0x40 = b.toNat := by omega
  rw [payload, hvalue, UInt8.ofNat_toNat]
  exact ⟨by omega, rfl⟩

/-- What the second byte of three or four is checked for. -/
theorem second_spec {a b : UInt8} (h : isSecond a b = true) :
    isTail b = true ∧ (a.toNat = 0xE0 → 0x20 ≤ payload b) ∧ (a.toNat = 0xED → payload b < 0x20) ∧
      (a.toNat = 0xF0 → 0x10 ≤ payload b) ∧ (a.toNat = 0xF4 → payload b < 0x10) := by
  have hnumber (n : Nat) (hn : n < 0x100) : a = UInt8.ofNat n ↔ a.toNat = n := by
    rw [eq_comm, byte_eq_iff hn, eq_comm]
  simp only [isSecond, Bool.and_eq_true, Bool.not_eq_true', Bool.and_eq_false_iff,
    decide_eq_false_iff_not, UInt8.lt_iff_toNat_lt, UInt8.le_iff_toNat_le] at h
  obtain ⟨⟨⟨⟨htail, hE0⟩, hED⟩, hF0⟩, hF4⟩ := h
  obtain ⟨hpayload, hb⟩ := tail_eq htail
  have hvalue : b.toNat = 0x80 + payload b := by
    rw [← hb, toNat_byte (by omega), hb]
  rw [hvalue] at hE0 hED hF0 hF4
  -- Behind E0 and F0 the payload is not too low, behind ED and F4 not too high.
  refine ⟨htail, fun ha => ?_, fun ha => ?_, fun ha => ?_, fun ha => ?_⟩
  · have := hE0.resolve_left (not_not_intro ((hnumber 0xE0 (by decide)).mpr ha))
    change ¬0x80 + payload b < 0xA0 at this
    omega
  · have := hED.resolve_left (not_not_intro ((hnumber 0xED (by decide)).mpr ha))
    change ¬0xA0 ≤ 0x80 + payload b at this
    omega
  · have := hF0.resolve_left (not_not_intro ((hnumber 0xF0 (by decide)).mpr ha))
    change ¬0x80 + payload b < 0x90 at this
    omega
  · have := hF4.resolve_left (not_not_intro ((hnumber 0xF4 (by decide)).mpr ha))
    change ¬0x90 ≤ 0x80 + payload b at this
    omega

/-- Behind a character that was decoded, the rest was decoded too. -/
theorem encode_of_map {c : Char} {result : Except DecodeError Text} {t : Text} {rest : Bytes}
    (h : result.map (c :: ·) = .ok t) (ih : ∀ u, result = .ok u → encode u = rest) :
    encode t = encodeChar c ++ rest := by
  cases result with
  | error e => exact nomatch h
  | ok u =>
      obtain rfl := Except.ok.inj h
      show encodeChar c ++ encode u = _
      rw [ih u rfl]

/-- The number of a byte that begins a character of two to four bytes. -/
theorem lead_bounds {a : UInt8}
    (h : ¬(decide (a < 0xC2) || decide (0xF5 ≤ a)) = true) : 0xC2 ≤ a.toNat ∧ a.toNat < 0xF5 := by
  rw [Bool.or_eq_true, decide_eq_true_eq, decide_eq_true_eq, not_or, UInt8.lt_iff_toNat_lt,
    UInt8.le_iff_toNat_le] at h
  exact ⟨Nat.le_of_not_lt h.1, Nat.lt_of_not_le h.2⟩

/-- By induction on the bytes, one case for each way in which a character can begin. -/
theorem encode_of_decodeFrom {position : Nat} {bytes : Bytes} {t : Text}
    (h : decodeFrom position bytes = .ok t) : encode t = bytes := by
  fun_induction decodeFrom position bytes generalizing t with
  | case1 position =>
      obtain rfl := Except.ok.inj h
      rfl
  | case2 position a s hascii ih =>
      have ha : a.toNat < 0x80 := UInt8.lt_iff_toNat_lt.mp hascii
      rw [encode_of_map h fun u hu => ih hu, encodeChar_ofNat_one ha, UInt8.ofNat_toNat]
      rfl
  | case5 position a hascii hlead hshort b s htail ih =>
      obtain ⟨hlow, -⟩ := lead_bounds hlead
      have hhigh : a.toNat < 0xE0 := UInt8.lt_iff_toNat_lt.mp hshort
      obtain ⟨hpayload, hb⟩ := tail_eq htail
      have hvalue : 0xC0 + a.toNat % 0x20 = a.toNat := by omega
      rw [encode_of_map h fun u hu => ih hu, encodeChar_ofNat_two (by omega) (by omega) hpayload,
        hb,
        hvalue, UInt8.ofNat_toNat]
      rfl
  | case11 position a hascii hlead hshort b hsecond c s htail hmiddle ih =>
      have hlow : 0xE0 ≤ a.toNat :=
        Nat.le_of_not_lt fun hlt => hshort (UInt8.lt_iff_toNat_lt.mpr hlt)
      have hhigh : a.toNat < 0xF0 := UInt8.lt_iff_toNat_lt.mp hmiddle
      obtain ⟨hb', hE0, hED, -, -⟩ := second_spec (by simpa using hsecond)
      obtain ⟨hpayload, hb⟩ := tail_eq hb'
      obtain ⟨hpayload', hc⟩ := tail_eq (b := c) (by simpa using htail)
      have hvalue : 0xE0 + a.toNat % 0x10 = a.toNat := by omega
      rw [encode_of_map h fun u hu => ih hu, encodeChar_ofNat_three (by omega) hpayload hpayload'
        (by omega) (by omega), hb, hc, hvalue, UInt8.ofNat_toNat]
      rfl
  | case14 position a hascii hlead hshort b hsecond c htail hmiddle d s htail' ih =>
      obtain ⟨-, hhigh⟩ := lead_bounds hlead
      have hlow : 0xF0 ≤ a.toNat :=
        Nat.le_of_not_lt fun hlt => hmiddle (UInt8.lt_iff_toNat_lt.mpr hlt)
      obtain ⟨hb', -, -, hF0, hF4⟩ := second_spec (by simpa using hsecond)
      obtain ⟨hpayload, hb⟩ := tail_eq hb'
      obtain ⟨hpayload', hc⟩ := tail_eq (b := c) (by simpa using htail)
      obtain ⟨hpayload'', hd⟩ := tail_eq (b := d) (by simpa using htail')
      have hvalue : 0xF0 + a.toNat % 0x8 = a.toNat := by omega
      rw [encode_of_map h fun u hu => ih hu, encodeChar_ofNat_four (by omega) hpayload hpayload'
        hpayload'' (by omega) (by omega), hb, hc, hd, hvalue, UInt8.ofNat_toNat]
      rfl
  -- All other ways to begin end in an error.
  | _ => exact nomatch h

/-- The bytes that are decoded as a text are those of the text. -/
theorem encode_of_decode {bytes : Bytes} {t : Text} (h : decode bytes = .ok t) :
    encode t = bytes :=
  encode_of_decodeFrom h

/-- Characters in ASCII are bytes in ASCII. -/
theorem byte_lt_of_mem_encode {s : Text} (h : ∀ c ∈ s, c.toNat < 0x80) {byte : UInt8}
    (hbyte : byte ∈ encode s) : byte < 0x80 := by
  obtain ⟨c, hc, hbyte⟩ := List.mem_flatMap.mp hbyte
  have hone : encodeChar c = [UInt8.ofNat c.toNat] := if_pos (h c hc)
  rw [hone, List.mem_singleton] at hbyte
  rw [hbyte]
  exact (byte_lt_iff (Nat.lt_trans (h c hc) (by decide)) _).mpr (h c hc)

end Utf8

namespace Text

/-! ## Carriage returns -/

/-- No carriage return is left when line breaks are unified. -/
theorem return_not_mem_unifyNewlines (s : Text) : '\r' ∉ unifyNewlines s := by
  fun_induction unifyNewlines s with
  | case1 => simp
  | case2 s ih => simp [ih]
  | case3 c s hreturn ih =>
      have hhead : '\r' ≠ if c = '\r' then '\n' else c := by
        split
        · decide
        · next hc => exact Ne.symm hc
      rw [List.mem_cons, not_or]
      exact ⟨hhead, ih⟩

/-- The characters that break no line are left alone. -/
theorem mem_unifyNewlines {c : Char} (hfeed : c ≠ '\n') (hreturn : c ≠ '\r') (s : Text) :
    c ∈ unifyNewlines s ↔ c ∈ s := by
  fun_induction unifyNewlines s with
  | case1 => rfl
  | case2 s ih => simp [ih, hfeed, hreturn]
  | case3 d s _ ih =>
      rw [List.mem_cons, List.mem_cons, ih]
      split
      · next hd => simp [hd, hfeed, hreturn]
      · rfl

/-- A text without carriage returns is left as it is. -/
theorem unifyNewlines_of_not_mem {s : Text} (h : '\r' ∉ s) : unifyNewlines s = s := by
  fun_induction unifyNewlines s with
  | case1 => rfl
  | case2 s ih => exact absurd (by simp) h
  | case3 c s hreturn ih =>
      rw [List.mem_cons, not_or] at h
      rw [if_neg (Ne.symm h.1), ih h.2]

end Text

end Checklist
