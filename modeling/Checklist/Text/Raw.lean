import Checklist.Text.Order
import Checklist.Text.Quoted

/-!
# Raw texts — characters, and surrogates without a partner

A JSON document can write one half of a surrogate pair alone, which is no character, and a byte of a
file name or of an argument that is no character is handed on as such a half. A `RawText` keeps
them. It is a text exactly when it has none (`toText?_eq_some_iff`), and then it is quoted and
ordered like the text (`quoted_ofText`, `le_ofText`).
-/

namespace Checklist

/-- A character, or half of a surrogate pair, given by its place among the 2048 surrogates. -/
inductive RawChar where
  | char (c : Char)
  | surrogate (index : Fin 0x800)
  deriving DecidableEq

/-- A text that may hold surrogates without a partner. -/
abbrev RawText := List RawChar

namespace RawChar

/-- What a UTF-16 unit that stands alone means. -/
def ofUnit (n : Nat) : RawChar :=
  if h : 0xD800 ≤ n ∧ n < 0xE000 then .surrogate ⟨n - 0xD800, by omega⟩ else .char (.ofNat n)

/-- The unit of a surrogate. -/
def unit (index : Fin 0x800) : Nat := 0xD800 + index.val

/-- The escape of a surrogate: its unit in four hexadecimal digits. -/
def escape (index : Fin 0x800) : Text := '\\' :: 'u' :: Text.fixedDigits 16 4 (unit index)

/-- The number by which it is ordered: a code point, or the unit of a surrogate. -/
def code : RawChar → Nat
  | .char c => c.toNat
  | .surrogate index => unit index

/-- Whether it is no character. -/
def isSurrogate : RawChar → Bool
  | .char _ => false
  | .surrogate _ => true

/-- Whether the number of the first is not the larger one. -/
def le (a b : RawChar) : Bool := decide (a.code ≤ b.code)

end RawChar

namespace RawText

/-- The raw text of a text. -/
def ofText (s : Text) : RawText := s.map .char

/-- The text, unless there is a surrogate. -/
def toText? : RawText → Option Text
  | [] => some []
  | .char c :: s => (toText? s).map (c :: ·)
  | .surrogate _ :: _ => none

/-- Whether the first raw text does not come after the second. -/
def le (s t : RawText) : Bool := lexLe RawChar.le s t

/-- The raw text of a text is that text. -/
theorem toText?_ofText (s : Text) : toText? (ofText s) = some s := by
  induction s with
  | nil => rfl
  | cons c s ih =>
    show (toText? (ofText s)).map (c :: ·) = some (c :: s)
    rw [ih]
    rfl

/-- A raw text is a text exactly when it is the raw text of one. -/
theorem toText?_eq_some_iff {s : RawText} {t : Text} : toText? s = some t ↔ s = ofText t := by
  constructor
  · intro h
    induction s generalizing t with
    | nil =>
      obtain rfl := Option.some.inj h
      rfl
    | cons a s ih =>
      cases a with
      | surrogate index => exact nomatch h
      | char c =>
        obtain ⟨u, hu, rfl⟩ := Option.map_eq_some_iff.mp h
        rw [ih hu]
        rfl
  · rintro rfl
    exact toText?_ofText t

/-- Different texts have different raw texts. -/
theorem ofText_injective {s t : Text} (h : ofText s = ofText t) : s = t :=
  Option.some.inj ((toText?_ofText s).symm.trans ((congrArg toText? h).trans (toText?_ofText t)))

/-- The raw text of a text in two pieces. -/
theorem ofText_append (s t : Text) : ofText (s ++ t) = ofText s ++ ofText t := List.map_append

/-- A raw text in two pieces is a text exactly when both pieces are. -/
theorem append_eq_ofText_iff {s t : RawText} {u : Text} :
    s ++ t = ofText u ↔ ∃ v w, s = ofText v ∧ t = ofText w ∧ u = v ++ w := by
  constructor
  · intro h
    obtain ⟨v, w, rfl, hv, hw⟩ := List.map_eq_append_iff.mp h.symm
    exact ⟨v, w, hv.symm, hw.symm, rfl⟩
  · rintro ⟨v, w, rfl, rfl, rfl⟩
    exact (ofText_append v w).symm

/-- The order of raw texts is that of texts where they are texts. -/
theorem le_ofText (s t : Text) : le (ofText s) (ofText t) = Text.le s t := by
  have hlists : ∀ s t : Text, lexLe RawChar.le (ofText s) (ofText t) = lexLe Text.charLe s t := by
    intro s t
    induction s generalizing t with
    | nil => rfl
    | cons c s ih =>
      cases t with
      | nil => rfl
      | cons d t =>
        show (if RawChar.char c = .char d then lexLe RawChar.le (ofText s) (ofText t) else _) = _
        simp only [ih t, lexLe, RawChar.char.injEq]
        rfl
  exact hlists s t

/-- The text with escapes in place of the surrogates. -/
def escaped (s : RawText) : Text :=
  s.flatMap fun
    | .char c => [c]
    | .surrogate index => RawChar.escape index

/-- The quote that surrounds the raw text. -/
def quoteFor (s : RawText) : Char :=
  if s.contains (.char '\'') && !s.contains (.char '"') then '"' else '\''

/-- One piece of a raw text that stands between two `quote`s. -/
def quotedChar (quote : Char) : RawChar → Text
  | .char c => Text.quotedChar quote c
  | .surrogate index => RawChar.escape index

/-- The raw text between quotes, on one line and in printable characters. -/
def quoted (s : RawText) : Text :=
  quoteFor s :: s.flatMap (quotedChar (quoteFor s)) ++ [quoteFor s]

theorem contains_ofText (s : Text) (c : Char) :
    (ofText s).contains (.char c) = s.contains c := by
  rw [Bool.eq_iff_iff, List.contains_iff_mem, List.contains_iff_mem]
  simp [ofText]

/-- A text is quoted alike as a raw text. -/
theorem quoted_ofText (s : Text) : quoted (ofText s) = Text.quoted s := by
  have quote : quoteFor (ofText s) = Text.quoteFor s := by
    unfold quoteFor Text.quoteFor
    rw [contains_ofText, contains_ofText]
  unfold quoted Text.quoted
  rw [quote, ofText, List.flatMap_map]
  rfl

end RawText

end Checklist
