import Mathlib.Algebra.Group.Nat.Defs
import Checklist.Calendar.IsoDate
import Checklist.Text.Blank

/-!
# Date texts — a date is read from what it is written as

Digits that are written to a width are read back (`takeDigits?_fixedDigits`), and digits that are
read are the ones that would be written (`eq_fixedDigits_of_takeDigits?`). So a date is read from
its own text (`ofIso?_iso`), and a text in the hyphenated shape that names a date is the text of
that date (`eq_iso_of_take?`).
-/

namespace Checklist

open Text

namespace Text

/-- The first of `width + 1` digits stands for the highest power. -/
theorem fixedDigits_succ_eq_cons (base width n : Nat) :
    fixedDigits base (width + 1) n =
      Nat.digitChar (n / base ^ width % base) :: fixedDigits base width n := by
  induction width generalizing n with
  | zero => simp [fixedDigits]
  | succ width ih =>
      rw [fixedDigits, ih, fixedDigits, Nat.div_div_eq_div_mul, Nat.pow_succ']
      rfl

theorem fixedDigits_add_mul (width v m : Nat) :
    fixedDigits 10 width (v * 10 ^ width + m) = fixedDigits 10 width m := by
  induction width generalizing v with
  | zero => rfl
  | succ width ih =>
      have hpos : 0 < 10 ^ width := Nat.pow_pos (by decide)
      have hsplit : v * 10 ^ (width + 1) + m = v * 10 * 10 ^ width + m := by
        rw [Nat.pow_succ', Nat.mul_assoc]
      rw [hsplit, fixedDigits_succ_eq_cons, ih, fixedDigits_succ_eq_cons, Nat.add_comm,
        Nat.add_mul_div_right _ _ hpos, Nat.add_mul_mod_self_right]

/-- A decimal digit is one of ten characters. -/
theorem exists_digit_of_mem_fixedDigits {width n : Nat} {c : Char}
    (h : c ∈ fixedDigits 10 width n) : ∃ k < 10, c = Nat.digitChar k := by
  induction width with
  | zero => simp [fixedDigits] at h
  | succ width ih =>
      rw [fixedDigits_succ_eq_cons] at h
      rcases List.mem_cons.mp h with rfl | h
      · exact ⟨_, Nat.mod_lt _ (by decide), rfl⟩
      · exact ih h

theorem asciiDigit?_digitChar {k : Nat} (hk : k < 10) :
    asciiDigit? (Nat.digitChar k) = some k := by
  have hall : ∀ k < 10, asciiDigit? (Nat.digitChar k) = some k := by decide
  exact hall k hk

theorem isDigit_digitChar (n : Nat) : isDigit (Nat.digitChar (n % 10)) = true := by
  have hall : ∀ k < 10, isDigit (Nat.digitChar k) = true := by decide
  exact hall _ (Nat.mod_lt n (by decide))

theorem eq_digitChar_of_asciiDigit? {c : Char} {v : Nat} (h : asciiDigit? c = some v) :
    v < 10 ∧ c = Nat.digitChar v := by
  have hall : ∀ k < 10, Char.ofNat (48 + k) = Nat.digitChar k := by decide
  unfold asciiDigit? at h
  split at h
  · next hc =>
      obtain rfl : c.toNat - 48 = v := by simpa using h
      have hlo : 48 ≤ c.toNat := hc.1
      have hhi : c.toNat ≤ 57 := hc.2
      refine ⟨by omega, ?_⟩
      rw [← hall _ (by omega), Nat.add_sub_cancel' hlo, Char.ofNat_toNat]
  · exact absurd h (by simp)

end Text

theorem takeDigitsFrom?_fixedDigits (width m n : Nat) (rest : Text) :
    takeDigitsFrom? width m (fixedDigits 10 width n ++ rest) =
      some (m * 10 ^ width + n % 10 ^ width, rest) := by
  induction width generalizing m with
  | zero =>
      rw [Nat.pow_zero, Nat.mod_one, Nat.mul_one]
      rfl
  | succ width ih =>
      rw [fixedDigits_succ_eq_cons, List.cons_append, takeDigitsFrom?,
        asciiDigit?_digitChar (Nat.mod_lt _ (by decide))]
      simp only
      rw [ih, Nat.pow_succ, Nat.mod_mul, Nat.add_mul, Nat.mul_assoc m, Nat.mul_comm 10 (10 ^ width),
        Nat.mul_comm (n / 10 ^ width % 10), Nat.add_assoc, Nat.add_comm (n % 10 ^ width)]

/-- Digits that are written are read back. -/
theorem takeDigits?_fixedDigits (width n : Nat) (rest : Text) :
    takeDigits? width (fixedDigits 10 width n ++ rest) = some (n % 10 ^ width, rest) := by
  rw [takeDigits?, takeDigitsFrom?_fixedDigits, Nat.zero_mul, Nat.zero_add]

theorem exists_fixedDigits_of_takeDigitsFrom? {width m n : Nat} {s rest : Text}
    (h : takeDigitsFrom? width m s = some (n, rest)) :
    ∃ k < 10 ^ width, n = m * 10 ^ width + k ∧ s = fixedDigits 10 width k ++ rest := by
  induction width generalizing m s with
  | zero =>
      obtain ⟨rfl, rfl⟩ := Prod.mk.inj (Option.some.inj h)
      exact ⟨0, Nat.one_pos, (Nat.mul_one m).symm, rfl⟩
  | succ width ih =>
      cases s with
      | nil => exact absurd h.symm (Option.some_ne_none _)
      | cons c s =>
          rw [takeDigitsFrom?] at h
          split at h
          · next v hv =>
              obtain ⟨hv10, rfl⟩ := eq_digitChar_of_asciiDigit? hv
              obtain ⟨k, hk, rfl, rfl⟩ := ih h
              have hpos : 0 < 10 ^ width := Nat.pow_pos (by decide)
              -- The digit that was read first is the highest of the number.
              have hdiv : (v * 10 ^ width + k) / 10 ^ width % 10 = v := by
                rw [Nat.add_comm, Nat.add_mul_div_right _ _ hpos, Nat.div_eq_of_lt hk,
                  Nat.zero_add, Nat.mod_eq_of_lt hv10]
              refine ⟨v * 10 ^ width + k, ?_, ?_, ?_⟩
              · calc v * 10 ^ width + k < v * 10 ^ width + 10 ^ width := Nat.add_lt_add_left hk _
                  _ = (v + 1) * 10 ^ width := by rw [Nat.succ_mul]
                  _ ≤ 10 * 10 ^ width := Nat.mul_le_mul_right _ hv10
                  _ = 10 ^ (width + 1) := by rw [Nat.pow_succ']
              · rw [Nat.pow_succ', Nat.add_mul, Nat.mul_assoc, Nat.add_assoc]
              · rw [fixedDigits_succ_eq_cons, hdiv, fixedDigits_add_mul]
                rfl
          · exact absurd h.symm (Option.some_ne_none _)

/-- Digits that are read are the ones that would be written. -/
theorem eq_fixedDigits_of_takeDigits? {width n : Nat} {s rest : Text}
    (h : takeDigits? width s = some (n, rest)) :
    s = fixedDigits 10 width n ++ rest ∧ n < 10 ^ width := by
  obtain ⟨k, hk, rfl, hs⟩ := exists_fixedDigits_of_takeDigitsFrom? h
  rw [Nat.zero_mul, Nat.zero_add]
  exact ⟨hs, hk⟩

namespace Date

/-- Three numbers with hyphens between them are read as year, month and day. -/
theorem take?_hyphenated (year month day : Nat) (rest : Text) :
    take? (fixedDigits 10 4 year ++ '-' :: (fixedDigits 10 2 month ++
        '-' :: (fixedDigits 10 2 day ++ rest))) =
      (of? (year % 10 ^ 4) (month % 10 ^ 2) (day % 10 ^ 2)).map (·, rest) := by
  -- what stands behind the first hyphen is no week, which would begin with a letter
  obtain ⟨c, s, hs, hc⟩ : ∃ c s, fixedDigits 10 2 month ++
      '-' :: (fixedDigits 10 2 day ++ rest) = c :: s ∧ c ≠ 'W' := by
    have hall : ∀ k < 10, Nat.digitChar k ≠ 'W' := by decide
    exact ⟨_, _, by rw [fixedDigits_succ_eq_cons]; rfl, hall _ (Nat.mod_lt _ (by decide))⟩
  have hmonth : takeDigits? 2 (c :: s) =
      some (month % 10 ^ 2, '-' :: (fixedDigits 10 2 day ++ rest)) := by
    rw [← hs, takeDigits?_fixedDigits]
  unfold take?
  rw [takeDigits?_fixedDigits, hs]
  simp only [bind, Option.bind]
  split
  · next heq =>
      obtain ⟨rfl, -⟩ := List.cons.inj heq
      exact absurd rfl hc
  · rw [hmonth]
    simp only [if_true, dropStart?, takeDigits?_fixedDigits]
    cases of? (year % 10 ^ 4) (month % 10 ^ 2) (day % 10 ^ 2) <;> rfl

/-- The numbers of a date fit the width that they are written to. -/
theorem width_lt (d : Date) : d.year < 10 ^ 4 ∧ d.month < 10 ^ 2 ∧ d.day < 10 ^ 2 := by
  obtain ⟨⟨-, hyear⟩, ⟨-, hmonth⟩, -, hday⟩ := d.valid
  have hdays : daysInMonth d.year d.month ≤ 31 := by
    unfold daysInMonth
    split
    · split <;> decide
    · split <;> decide
  omega

theorem mod_width (d : Date) :
    d.year % 10 ^ 4 = d.year ∧ d.month % 10 ^ 2 = d.month ∧ d.day % 10 ^ 2 = d.day := by
  obtain ⟨hyear, hmonth, hday⟩ := d.width_lt
  exact ⟨Nat.mod_eq_of_lt hyear, Nat.mod_eq_of_lt hmonth, Nat.mod_eq_of_lt hday⟩

theorem iso_eq (d : Date) : d.iso = fixedDigits 10 4 d.year ++
    '-' :: (fixedDigits 10 2 d.month ++ '-' :: fixedDigits 10 2 d.day) := by
  simp [iso]

/-- The characters of a date's text. -/
theorem mem_iso {d : Date} {c : Char} (h : c ∈ d.iso) :
    c = '-' ∨ ∃ k < 10, c = Nat.digitChar k := by
  simp only [iso_eq, List.mem_append, List.mem_cons] at h
  rcases h with h | h | h | h | h
  · exact .inr (exists_digit_of_mem_fixedDigits h)
  · exact .inl h
  · exact .inr (exists_digit_of_mem_fixedDigits h)
  · exact .inl h
  · exact .inr (exists_digit_of_mem_fixedDigits h)

/-- What holds of the hyphen and the ten digits holds of a date's text. -/
theorem forall_mem_iso {P : Char → Prop} (hyphen : P '-') (digits : ∀ k < 10, P (Nat.digitChar k))
    (d : Date) : ∀ c ∈ d.iso, P c := by
  intro c hc
  rcases mem_iso hc with rfl | ⟨k, hk, rfl⟩
  · exact hyphen
  · exact digits k hk

theorem isBlank_of_mem_iso {d : Date} : ∀ c ∈ d.iso, isBlank c = false :=
  forall_mem_iso (by decide) (by decide) d

theorem length_encode_of_ascii {s : Text} (h : ∀ c ∈ s, c.toNat < 0x80) :
    (Utf8.encode s).length = s.length := by
  induction s with
  | nil => rfl
  | cons c s ih =>
      have hc : (Utf8.encodeChar c).length = 1 := by
        simp [Utf8.encodeChar, h c (by simp)]
      have hs := ih fun d hd => h d (by simp [hd])
      rw [Utf8.encode, List.flatMap_cons, List.length_append, hc]
      rw [Utf8.encode] at hs
      rw [hs, List.length_cons, Nat.add_comm]

@[simp] theorem length_iso (d : Date) : d.iso.length = 10 := by simp [iso]

/-- A date is read from its text. -/
theorem ofIso?_iso (d : Date) : ofIso? d.iso = some d := by
  have hascii : ∀ c ∈ d.iso, c.toNat < 0x80 := forall_mem_iso (by decide) (by decide) d
  obtain ⟨hyear, hmonth, hday⟩ := mod_width d
  have htake : take? d.iso = some (d, []) := by
    have := take?_hyphenated d.year d.month d.day []
    rw [List.append_nil] at this
    rw [iso_eq, this, hyear, hmonth, hday, of?_self]
    rfl
  unfold ofIso?
  simp only [length_encode_of_ascii hascii, length_iso, htake]
  rfl

/-- Digits of a known width are the ones that were read. -/
theorem takeDigits?_append {width n : Nat} {s t rest : Text} (hlen : s.length = width)
    (h : takeDigits? width (s ++ t) = some (n, rest)) :
    s = fixedDigits 10 width n ∧ t = rest ∧ n < 10 ^ width := by
  obtain ⟨heq, hlt⟩ := eq_fixedDigits_of_takeDigits? h
  obtain ⟨hs, ht⟩ := List.append_inj heq (by simp [hlen])
  exact ⟨hs, ht, hlt⟩

/-- A text in the hyphenated shape that names a date is the text of that date. -/
theorem eq_iso_of_take? {y m w rest : Text} {d : Date} (hy : y.length = 4) (hm : m.length = 2)
    (hweek : ∀ s, m ≠ 'W' :: s) (hw : w.length = 2)
    (h : take? (y ++ '-' :: (m ++ '-' :: w)) = some (d, rest)) :
    y ++ '-' :: (m ++ '-' :: w) = d.iso := by
  unfold take? at h
  obtain ⟨⟨year, s⟩, hyear, h⟩ := Option.bind_eq_some_iff.mp h
  obtain ⟨rfl, rfl, hylt⟩ := takeDigits?_append hy hyear
  simp only at h
  split at h
  · -- The week dates, which the hyphenated shape is not.
    next s heq =>
      cases m with
      | nil => exact absurd hm (by decide)
      | cons c m =>
          obtain ⟨rfl, -⟩ := List.cons.inj heq
          exact absurd rfl (hweek m)
  · obtain ⟨⟨month, s⟩, hmonth, h⟩ := Option.bind_eq_some_iff.mp h
    obtain ⟨rfl, rfl, hmlt⟩ := takeDigits?_append hm hmonth
    simp only [if_true, dropStart?] at h
    obtain ⟨s, hs, h⟩ := Option.bind_eq_some_iff.mp h
    obtain rfl : w = s := Option.some.inj hs
    obtain ⟨⟨day, t⟩, hday, h⟩ := Option.bind_eq_some_iff.mp h
    rw [← List.append_nil w] at hday
    obtain ⟨rfl, rfl, hdlt⟩ := takeDigits?_append hw hday
    obtain ⟨date, hdate, h⟩ := Option.bind_eq_some_iff.mp h
    obtain ⟨rfl, -⟩ : date = d ∧ [] = rest := by simpa using h
    -- The three numbers are those of the date, so it is written with the same digits.
    obtain ⟨rfl, rfl, rfl⟩ := of?_eq_some_iff.mp hdate
    rw [iso_eq]

end Date

end Checklist
