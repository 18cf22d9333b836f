import Mathlib.Data.List.Nodup
import Checklist.Json.Reader
import Checklist.Json.Writer
import Checklist.Proofs.Characters
import Checklist.Proofs.DateTexts

/-!
# JSON texts — records of texts are read as they were written

A character is written inside a string in one of four ways (`Escaped`): as itself, as a letter
behind a backslash, as a unit in hexadecimal digits, or as a pair of units. Whichever way it is,
reading gives the character back and goes on behind it (`stringBody?_of_escaped`), so a string is
read as it was written (`exists_writeString_append`). A record whose values are texts or `null` is
then read member by member, in every layout (`read_write_texts`).

A layout for ASCII alone writes such a record in printable ASCII and line feeds
(`plain_write_texts`).
-/

namespace Checklist.Json

open Text

/-! ## Units -/

/-- A hexadecimal digit is read as what it is written for. -/
theorem hexValue?_digitChar {k : Nat} (hk : k < 16) : hexValue? (Nat.digitChar k) = some k := by
  have hall : ∀ k < 16, hexValue? (Nat.digitChar k) = some k := by decide
  exact hall k hk

/-- An escaped unit is a backslash, the letter and four digits. -/
theorem escapeUnit_eq (n : Nat) :
    escapeUnit n = ['\\', 'u', Nat.digitChar (n / 16 ^ 3 % 16), Nat.digitChar (n / 16 ^ 2 % 16),
      Nat.digitChar (n / 16 ^ 1 % 16), Nat.digitChar (n / 16 ^ 0 % 16)] := by
  simp only [escapeUnit, fixedDigits_succ_eq_cons]
  rfl

/-- A unit is written in four digits that are read as the unit. -/
theorem exists_digits_of_unit {n : Nat} (hn : n < 0x10000) :
    ∃ a b c d, escapeUnit n = ['\\', 'u', a, b, c, d] ∧ unit? a b c d = some n := by
  have hdigit (m : Nat) : hexValue? (Nat.digitChar (m % 16)) = some (m % 16) :=
    hexValue?_digitChar (Nat.mod_lt m (by decide))
  have hvalue : ((n / 16 ^ 3 % 16 * 16 + n / 16 ^ 2 % 16) * 16 + n / 16 ^ 1 % 16) * 16 +
      n / 16 ^ 0 % 16 = n := by omega
  refine ⟨_, _, _, _, escapeUnit_eq n, ?_⟩
  rw [unit?, hdigit, hdigit, hdigit, hdigit]
  exact congrArg some hvalue

/-- The unit of a character is no half of a pair. -/
theorem ofUnit_toNat (c : Char) : RawChar.ofUnit c.toNat = .char c := by
  have hvalid : c.toNat < 0xD800 ∨ 0xDFFF < c.toNat ∧ c.toNat < 0x110000 := c.valid
  rw [RawChar.ofUnit, dif_neg (by omega), Char.ofNat_toNat]

/-- The halves of a character beyond the first 65536 are put together again. -/
theorem ofPair_halves {c : Char} (hc : 0x10000 ≤ c.toNat) :
    ofPair (0xD800 + (c.toNat - 0x10000) / 0x400) (0xDC00 + (c.toNat - 0x10000) % 0x400) = c := by
  have hvalue : 0x10000 + (0xD800 + (c.toNat - 0x10000) / 0x400 - 0xD800) * 0x400 +
      (0xDC00 + (c.toNat - 0x10000) % 0x400 - 0xDC00) = c.toNat := by omega
  rw [ofPair, hvalue, Char.ofNat_toNat]

/-! ## Escapes -/

/-- How a character may be written inside a string: the ways that the writer chooses from. -/
inductive Escaped (ascii : Bool) (c : Char) : Text → Prop
  | short {letter : Char} (hletter : shortEscape? letter = some c) : Escaped ascii c ['\\', letter]
  | unit (hc : c.toNat < 0x10000) : Escaped ascii c (escapeUnit c.toNat)
  | pair (hc : 0x10000 ≤ c.toNat) : Escaped ascii c
      (escapeUnit (0xD800 + (c.toNat - 0x10000) / 0x400) ++
        escapeUnit (0xDC00 + (c.toNat - 0x10000) % 0x400))
  | itself (hquote : c ≠ '"') (hbackslash : c ≠ '\\') (hcontrol : ¬c < ' ')
      (hascii : ascii = true → c ≤ '~') : Escaped ascii c [c]

/-- What a character is written as is one of the ways to write it. -/
theorem escaped_escapeChar (ascii : Bool) (c : Char) : Escaped ascii c (escapeChar ascii c) := by
  unfold escapeChar
  -- The seven characters with a letter of their own come first.
  split
  · next h => exact .short (by rw [h]; rfl)
  next hquote =>
  split
  · next h => exact .short (by rw [h]; rfl)
  next hbackslash =>
  split
  · next h => exact .short (by rw [h]; rfl)
  split
  · next h => exact .short (by rw [h]; rfl)
  split
  · next h => exact .short (by rw [h]; rfl)
  split
  · next h => exact .short (by rw [h]; rfl)
  split
  · next h => exact .short (by rw [h]; rfl)
  -- Control characters and, in ASCII layouts, what is not ASCII take one unit or two.
  split
  · next hcontrol =>
      have hlt : c.toNat < 0x20 := hcontrol
      exact .unit (by omega)
  next hcontrol =>
  split
  · split
    · next hc => exact .unit hc
    · next hc => exact .pair (Nat.le_of_not_lt hc)
  · next hplain =>
      refine .itself hquote hbackslash hcontrol fun hascii => ?_
      simpa [hascii] using hplain

/-! ## Reading a string, step by step -/

/-- A string that goes on behind its first character. -/
def behind (c : RawChar) (found : Option (RawText × Text)) : Option (RawText × Text) :=
  found.map fun (t, rest) => (c :: t, rest)

/-- A character that needs no escape is read as itself. -/
theorem stringBody?_itself {c : Char} (hquote : c ≠ '"') (hbackslash : c ≠ '\\')
    (hcontrol : ¬c < ' ') (s : Text) :
    stringBody? (c :: s) = behind (.char c) (stringBody? s) := by
  rw [stringBody?.eq_def]
  split <;> grind [behind]

/-- A backslash and a letter are read as what the letter stands for. -/
theorem stringBody?_short {letter c : Char} (hletter : shortEscape? letter = some c) (s : Text) :
    stringBody? ('\\' :: letter :: s) = behind (.char c) (stringBody? s) := by
  have hu : letter ≠ 'u' := by
    rintro rfl
    exact nomatch hletter
  rw [stringBody?.eq_def]
  split <;> grind [behind]

section Units

variable {a b c d : Char} {n : Nat}

/-- Behind the letter `u` there must be four digits. -/
theorem stringBody?_of_unit?_eq_none (hunit : unit? a b c d = none) (s : Text) :
    stringBody? ('\\' :: 'u' :: a :: b :: c :: d :: s) = none := by
  rw [stringBody?.eq_def]
  split <;> grind

/-- A unit that begins no pair stands alone, even if another unit follows. -/
theorem stringBody?_unit (hunit : unit? a b c d = some n) (hhigh : isHighSurrogate n = false)
    (s : Text) : stringBody? ('\\' :: 'u' :: a :: b :: c :: d :: s) =
      behind (.ofUnit n) (stringBody? s) := by
  rw [stringBody?.eq_def]
  split
  case h_3 e f g h t heq =>
    cases heq
    cases hnext : unit? e f g h with
    | none => simp [hunit, stringBody?_of_unit?_eq_none hnext, behind]
    | some low => simp [hunit, hhigh, behind]
  all_goals grind [behind]

/-- Two escaped halves of a surrogate pair are read as one character. -/
theorem stringBody?_pair {e f g h : Char} {low : Nat} (hunit : unit? a b c d = some n)
    (hhigh : isHighSurrogate n = true) (hnext : unit? e f g h = some low)
    (hlow : isLowSurrogate low = true) (s : Text) :
    stringBody? ('\\' :: 'u' :: a :: b :: c :: d :: '\\' :: 'u' :: e :: f :: g :: h :: s) =
      behind (.char (ofPair n low)) (stringBody? s) := by
  rw [stringBody?]
  simp [hunit, hnext, hhigh, hlow, behind]

end Units

/-! ## Strings -/

/-- However a character is written, it is read back, and reading goes on behind it. -/
theorem stringBody?_of_escaped {ascii : Bool} {c : Char} {written : Text}
    (h : Escaped ascii c written) (s : Text) :
    stringBody? (written ++ s) = behind (.char c) (stringBody? s) := by
  have hvalid : c.toNat < 0xD800 ∨ 0xDFFF < c.toNat ∧ c.toNat < 0x110000 := c.valid
  cases h with
  | short hletter => exact stringBody?_short hletter s
  | itself hquote hbackslash hcontrol _ => exact stringBody?_itself hquote hbackslash hcontrol s
  | unit hc =>
      obtain ⟨a₁, a₂, a₃, a₄, hwritten, hunit⟩ := exists_digits_of_unit hc
      have hhigh : isHighSurrogate c.toNat = false := by
        simp only [isHighSurrogate, Bool.and_eq_false_iff, decide_eq_false_iff_not]
        omega
      rw [hwritten, ← ofUnit_toNat c]
      exact stringBody?_unit hunit hhigh s
  | pair hc =>
      obtain ⟨a₁, a₂, a₃, a₄, hfirst, hhighUnit⟩ :=
        exists_digits_of_unit (n := 0xD800 + (c.toNat - 0x10000) / 0x400) (by omega)
      obtain ⟨b₁, b₂, b₃, b₄, hsecond, hlowUnit⟩ :=
        exists_digits_of_unit (n := 0xDC00 + (c.toNat - 0x10000) % 0x400) (by omega)
      have hread := stringBody?_pair hhighUnit
        (by simp only [isHighSurrogate, Bool.and_eq_true, decide_eq_true_eq]; omega) hlowUnit
        (by simp only [isLowSurrogate, Bool.and_eq_true, decide_eq_true_eq]; omega) s
      -- The two halves make up the character they were cut from.
      rw [ofPair_halves hc] at hread
      rw [hfirst, hsecond]
      exact hread

/-- What a character is written as is read as the character. -/
theorem stringBody?_escapeChar (ascii : Bool) (c : Char) (s : Text) :
    stringBody? (escapeChar ascii c ++ s) = behind (.char c) (stringBody? s) :=
  stringBody?_of_escaped (escaped_escapeChar ascii c) s

/-- The text between the quotes, by induction on the text that was written. -/
theorem stringBody?_ofText (ascii : Bool) (t s : Text) :
    stringBody? ((RawText.ofText t).flatMap (escapeRaw ascii) ++ '"' :: s) =
      some (.ofText t, s) := by
  induction t with
  | nil => rfl
  | cons c t ih =>
      show stringBody? ((escapeChar ascii c ++ (RawText.ofText t).flatMap (escapeRaw ascii)) ++
        '"' :: s) = _
      rw [List.append_assoc, stringBody?_escapeChar, ih]
      rfl

/-- The opening quote of a string that is written, and what stands behind it. -/
theorem exists_writeString_append (ascii : Bool) (t s : Text) :
    ∃ body, writeString ascii (.ofText t) ++ s = '"' :: body ∧
      takeString body = .ok (.ofText t, s) := by
  refine ⟨(RawText.ofText t).flatMap (escapeRaw ascii) ++ '"' :: s, ?_, ?_⟩
  · simp [writeString]
  · rw [takeString, stringBody?_ofText]

/-! ## White space -/

/-- A text that the reader skips between tokens. -/
def IsSpace (t : Text) : Prop := ∀ c ∈ t, c = ' ' ∨ c = '\n'

/-- Space in front is skipped. -/
theorem skipSpace_append {t : Text} (ht : IsSpace t) (s : Text) :
    skipSpace (t ++ s) = skipSpace s := by
  refine List.dropWhile_append_of_pos fun c hc => ?_
  rcases ht c hc with rfl | rfl <;> rfl

/-- What begins a new line is space. -/
theorem isSpace_newline (layout : Layout) (depth : Nat) : IsSpace (layout.newline depth) := by
  intro c hc
  unfold Layout.newline at hc
  split at hc
  · rcases List.mem_cons.mp hc with rfl | hc
    · exact .inr rfl
    · exact .inl (List.eq_of_mem_replicate hc)
  · exact nomatch hc

/-- Between two members stand a comma and space. -/
theorem exists_separator (layout : Layout) (depth : Nat) :
    ∃ space, layout.separator depth = ',' :: space ∧ IsSpace space := by
  unfold Layout.separator
  split
  · exact ⟨_, rfl, isSpace_newline layout depth⟩
  · exact ⟨[' '], rfl, by simp [IsSpace]⟩

/-! ## Values -/

section Reading

variable (layout : Layout) {depth fuel room : Nat}

/-- A value that is a text or null is read back. -/
theorem takeValue_write_ofText? (value : Option Text) (s : Text) :
    takeValue (fuel + 1) room (write layout depth (ofText? value) ++ s) =
      .ok (ofText? value, s) := by
  cases value with
  | none => rfl
  | some t =>
      obtain ⟨body, hwritten, hread⟩ := exists_writeString_append layout.ascii t s
      show takeValue (fuel + 1) room (writeString layout.ascii (.ofText t) ++ s) = _
      rw [hwritten, takeValue.eq_def]
      show (takeString body).map _ = _
      rw [hread]
      rfl

/-- No white space stands in front of a value. -/
theorem skipSpace_write_ofText? (value : Option Text) (s : Text) :
    skipSpace (write layout depth (ofText? value) ++ s) =
      write layout depth (ofText? value) ++ s := by
  cases value with
  | none => rfl
  | some t => rfl

/-! ## Members -/

/-- A record whose values are texts or `null`. -/
def ofTextMembers (members : List (Text × Option Text)) : List (RawText × Json) :=
  members.map fun (name, value) => (.ofText name, ofText? value)

/-- One member is read, and then what follows it decides. -/
theorem takeMembers_writeMember (name : Text) (value : Option Text) (s : Text) :
    takeMembers (fuel + 2) room (writeMember layout depth (.ofText name, ofText? value) ++ s) =
      match skipSpace s with
      | '\x7d' :: rest => .ok ([(.ofText name, ofText? value)], rest)
      | ',' :: s =>
        (takeMembers (fuel + 1) room (skipSpace s)).map fun (members, rest) =>
          ((.ofText name, ofText? value) :: members, rest)
      | _ => .error .malformed := by
  obtain ⟨body, hwritten, hread⟩ := exists_writeString_append layout.ascii name
    (':' :: ' ' :: (write layout depth (ofText? value) ++ s))
  have hmember : writeMember layout depth (.ofText name, ofText? value) ++ s = '"' :: body := by
    rw [writeMember, ← hwritten]
    simp
  have hvalue : skipSpace (' ' :: (write layout depth (ofText? value) ++ s)) =
      write layout depth (ofText? value) ++ s :=
    skipSpace_write_ofText? layout value s
  rw [hmember, takeMembers.eq_def]
  show (takeString body).bind _ = _
  rw [hread]
  show (takeValue (fuel + 1) room
    (skipSpace (' ' :: (write layout depth (ofText? value) ++ s)))).bind _ = _
  rw [hvalue, takeValue_write_ofText?]
  rfl

/-- A member begins with a quote, so nothing is skipped before it. -/
theorem skipSpace_writeMember (name : Text) (value : Json) (s : Text) :
    skipSpace (writeMember layout depth (.ofText name, value) ++ s) =
      writeMember layout depth (.ofText name, value) ++ s :=
  rfl

/-- All members up to the closing brace, by induction on those behind the first. -/
theorem takeMembers_writeMembers (name : Text) (value : Option Text)
    (members : List (Text × Option Text)) (hfuel : members.length ≤ fuel) {space : Text}
    (hspace : IsSpace space) (s : Text) :
    takeMembers (fuel + 2) room (writeMember layout depth (.ofText name, ofText? value) ++
        (writeMembers layout depth (ofTextMembers members) ++ (space ++ '\x7d' :: s))) =
      .ok (ofTextMembers ((name, value) :: members), s) := by
  induction members generalizing name value fuel with
  | nil =>
      have hclose : skipSpace (writeMembers layout depth (ofTextMembers []) ++
          (space ++ '\x7d' :: s)) = '\x7d' :: s := skipSpace_append hspace _
      rw [takeMembers_writeMember, hclose]
      rfl
  | cons member members ih =>
      obtain ⟨next, nextValue⟩ := member
      obtain ⟨gap, hseparator, hgap⟩ := exists_separator layout depth
      obtain ⟨fuel, rfl⟩ : ∃ k, fuel = k + 1 := Nat.exists_eq_add_one.mpr (Nat.zero_lt_of_lt hfuel)
      -- A comma and a gap stand before the next member, and the reader skips the gap.
      have hnext : writeMembers layout depth (ofTextMembers ((next, nextValue) :: members)) ++
            (space ++ '\x7d' :: s) =
          ',' :: (gap ++ (writeMember layout depth (.ofText next, ofText? nextValue) ++
            (writeMembers layout depth (ofTextMembers members) ++ (space ++ '\x7d' :: s)))) := by
        rw [ofTextMembers, List.map_cons, writeMembers, hseparator]
        simp [ofTextMembers]
      rw [takeMembers_writeMember, hnext]
      show (takeMembers (fuel + 2) room (skipSpace (gap ++ _))).map _ = _
      rw [skipSpace_append hgap, skipSpace_writeMember,
        ih next nextValue (Nat.le_of_succ_le_succ hfuel)]
      rfl

end Reading

/-! ## Records -/

/-- A new name is put at the end. -/
theorem put_of_not_mem {name : RawText} {members : List (RawText × Json)}
    (h : name ∉ members.map Prod.fst) (value : Json) :
    put name value members = members ++ [(name, value)] := by
  induction members with
  | nil => rfl
  | cons member members ih =>
      rw [List.map_cons, List.mem_cons, not_or] at h
      rw [put, if_neg (Ne.symm h.1), ih h.2]
      rfl

/-- Members are put behind those that are there, as long as each has a name of its own. -/
theorem foldl_put_of_nodup {members : List (RawText × Json)} (before : List (RawText × Json))
    (h : ((before ++ members).map Prod.fst).Nodup) :
    members.foldl (fun before (name, value) => put name value before) before =
      before ++ members := by
  induction members generalizing before with
  | nil => exact (List.append_nil before).symm
  | cons member members ih =>
      have hsplit : before ++ member :: members = before ++ [member] ++ members := by simp
      have hnew : member.1 ∉ before.map Prod.fst := fun hmem =>
        List.disjoint_of_nodup_append (List.map_append ▸ h) hmem List.mem_cons_self
      rw [hsplit] at h
      show members.foldl _ (put member.1 member.2 before) = _
      rw [put_of_not_mem hnew, hsplit]
      exact ih (before ++ [member]) h

/-- Members with different names are all kept, in their order. -/
theorem ofMembers_of_nodup {members : List (RawText × Json)}
    (h : (members.map Prod.fst).Nodup) : ofMembers members = .object members :=
  congrArg Json.object (foldl_put_of_nodup [] h)

/-- Different texts are different as raw texts. -/
theorem ofText_injective : Function.Injective RawText.ofText := fun s t hst =>
  Option.some.inj (by rw [← RawText.toText?_ofText s, hst, RawText.toText?_ofText])

/-- Names that differ as texts differ as raw texts. -/
theorem nodup_names_ofTextMembers {members : List (Text × Option Text)}
    (h : (members.map Prod.fst).Nodup) : ((ofTextMembers members).map Prod.fst).Nodup := by
  have hnames : (ofTextMembers members).map Prod.fst =
      (members.map Prod.fst).map RawText.ofText := by
    rw [ofTextMembers, List.map_map, List.map_map]
    rfl
  rw [hnames]
  exact List.Nodup.map ofText_injective h

/-- Every member takes up a character. -/
theorem length_le_length_writeMembers (layout : Layout) (depth : Nat)
    (members : List (RawText × Json)) :
    members.length ≤ (writeMembers layout depth members).length := by
  induction members with
  | nil => exact Nat.zero_le _
  | cons member members ih =>
      obtain ⟨gap, hseparator, -⟩ := exists_separator layout depth
      rw [writeMembers, hseparator]
      simp only [List.length_append, List.length_cons]
      omega

/-- An object with members is read as its members are. -/
theorem takeValue_object {fuel room : Nat} (hroom : room ≠ 0) {s body : Text}
    (hs : skipSpace s = '"' :: body) :
    takeValue (fuel + 1) room ('\x7b' :: s) =
      (takeMembers fuel (room - 1) ('"' :: body)).map fun (members, rest) =>
        (.ofMembers members, rest) := by
  rw [takeValue.eq_def]
  simp only [if_neg hroom, hs]
  rfl

/-- A record of texts is read as it was written, in every layout. -/
theorem read_write_texts (layout : Layout) {members : List (Text × Option Text)}
    (h : (members.map Prod.fst).Nodup) :
    read (write layout 0 (.object (ofTextMembers members))) =
      .ok (.object (ofTextMembers members)) := by
  cases members with
  | nil => rfl
  | cons member members =>
      obtain ⟨name, value⟩ := member
      let inside := writeMember layout 1 (.ofText name, ofText? value) ++
        (writeMembers layout 1 (ofTextMembers members) ++ (layout.newline 0 ++ ['\x7d']))
      have hwritten : write layout 0 (.object (ofTextMembers ((name, value) :: members))) =
          '\x7b' :: (layout.newline 1 ++ inside) := by
        rw [ofTextMembers, List.map_cons, write]
        simp [ofTextMembers, inside]
      -- The reader gets its fuel from the length of the text, in which every member has a character
      -- at least.
      obtain ⟨fuel, hlength, hfuel⟩ : ∃ fuel, ('\x7b' :: (layout.newline 1 ++ inside)).length =
          fuel + 2 ∧ members.length ≤ fuel := by
        have hmembers := length_le_length_writeMembers layout 1 (ofTextMembers members)
        have hcount : (ofTextMembers members).length = members.length := List.length_map _
        refine ⟨(layout.newline 1 ++ inside).length - 1, ?_, ?_⟩ <;>
          simp only [inside, List.length_cons, List.length_append, List.length_nil] <;> omega
      have hskip : skipSpace (layout.newline 1 ++ inside) = inside :=
        skipSpace_append (isSpace_newline layout 1) inside
      have hmembers : takeMembers (fuel + 2) (nestingLimit - 1) inside =
          .ok (ofTextMembers ((name, value) :: members), []) :=
        takeMembers_writeMembers layout name value members hfuel (isSpace_newline layout 0) []
      rw [hwritten, read, hlength]
      show (takeValue (fuel + 2 + 1) nestingLimit
        ('\x7b' :: (layout.newline 1 ++ inside))).bind _ = _
      rw [takeValue_object (by decide) hskip]
      show ((takeMembers (fuel + 2) (nestingLimit - 1) inside).map _).bind _ = _
      rw [hmembers]
      show Except.ok (ofMembers (ofTextMembers ((name, value) :: members))) = _
      rw [ofMembers_of_nodup (nodup_names_ofTextMembers h)]

/-! ## ASCII -/

/-- A character that every ASCII document may hold: a printable one or a line feed. -/
def IsPlain (c : Char) : Prop := c = '\n' ∨ ' ' ≤ c ∧ c ≤ '~'

instance : DecidablePred IsPlain := fun _ => inferInstanceAs (Decidable (_ ∨ _))

/-- A text in such characters alone. -/
def Plain (t : Text) : Prop := ∀ c ∈ t, IsPlain c

/-- The empty text is plain. -/
@[simp] theorem plain_nil : Plain [] := fun _ h => nomatch h

/-- A text is plain when its first character is and the rest is. -/
@[simp] theorem plain_cons {c : Char} {t : Text} : Plain (c :: t) ↔ IsPlain c ∧ Plain t :=
  List.forall_mem_cons

/-- Two texts are plain together when both are. -/
@[simp] theorem plain_append {s t : Text} : Plain (s ++ t) ↔ Plain s ∧ Plain t :=
  List.forall_mem_append

/-- Hexadecimal digits are plain. -/
theorem isPlain_digitChar (n : Nat) : IsPlain (Nat.digitChar (n % 16)) := by
  have hall : ∀ k < 16, IsPlain (Nat.digitChar k) := by decide
  exact hall _ (Nat.mod_lt n (by decide))

/-- So is an escaped unit, whatever unit it is. -/
theorem plain_escapeUnit (n : Nat) : Plain (escapeUnit n) := by
  have hmark : IsPlain '\\' ∧ IsPlain 'u' := by decide
  simp [escapeUnit_eq, isPlain_digitChar, hmark]

/-- So are the letters of the short escapes. -/
theorem isPlain_of_shortEscape? {letter c : Char} (h : shortEscape? letter = some c) :
    IsPlain letter := by
  have hletter : letter ∈ ['"', '\\', '/', 'n', 'r', 't', 'b', 'f'] := by
    unfold shortEscape? at h
    grind
  exact forall_mem_of_all (by decide) letter hletter

/-- Written in ASCII, every character is plain. -/
theorem Escaped.plain {c : Char} {written : Text} (h : Escaped true c written) : Plain written := by
  cases h with
  | short hletter => simp [isPlain_of_shortEscape? hletter, show IsPlain '\\' by decide]
  | unit => exact plain_escapeUnit _
  | pair => exact plain_append.mpr ⟨plain_escapeUnit _, plain_escapeUnit _⟩
  | itself _ _ hcontrol hascii =>
      exact plain_cons.mpr ⟨.inr ⟨Char.not_lt.mp hcontrol, hascii rfl⟩, plain_nil⟩

/-- So a string is, with its quotes. -/
theorem plain_writeString (t : Text) : Plain (writeString true (.ofText t)) := by
  have hquote : IsPlain '"' := by decide
  have hbody : Plain ((RawText.ofText t).flatMap (escapeRaw true)) := by
    intro d hd
    obtain ⟨raw, hraw, hd⟩ := List.mem_flatMap.mp hd
    obtain ⟨c, -, rfl⟩ := List.mem_map.mp hraw
    exact (escaped_escapeChar true c).plain d hd
  simp [writeString, hquote, hbody]

/-- Space is plain. -/
theorem IsSpace.plain {t : Text} (h : IsSpace t) : Plain t := by
  intro c hc
  rcases h c hc with rfl | rfl <;> decide

section Writing

variable {layout : Layout} (h : layout.ascii = true) (depth : Nat)

include h

/-- A value that is a text or null is written plainly. -/
theorem plain_write_ofText? (value : Option Text) :
    Plain (write layout depth (ofText? value)) := by
  cases value with
  | none =>
      have hnull : Plain "null".toList := forall_mem_of_all (by decide)
      exact hnull
  | some t =>
      show Plain (writeString layout.ascii (.ofText t))
      rw [h]
      exact plain_writeString t

/-- And so is a member with its name. -/
theorem plain_writeMember (name : Text) (value : Option Text) :
    Plain (writeMember layout depth (.ofText name, ofText? value)) := by
  have hcolon : IsPlain ':' ∧ IsPlain ' ' := by decide
  rw [writeMember, h]
  simp [plain_writeString, plain_write_ofText? h, hcolon]

/-- And a whole row of members. -/
theorem plain_writeMembers (members : List (Text × Option Text)) :
    Plain (writeMembers layout depth (ofTextMembers members)) := by
  have hcomma : IsPlain ',' := by decide
  induction members with
  | nil => exact plain_nil
  | cons member members ih =>
      obtain ⟨gap, hseparator, hgap⟩ := exists_separator layout depth
      rw [ofTextMembers, List.map_cons, writeMembers, hseparator]
      simp only [plain_append, plain_cons]
      exact ⟨⟨⟨hcomma, hgap.plain⟩, plain_writeMember h depth member.1 member.2⟩, ih⟩

/-- A layout for ASCII alone writes records of texts in plain characters. -/
theorem plain_write_texts (members : List (Text × Option Text)) :
    Plain (write layout depth (.object (ofTextMembers members))) := by
  have hbraces : IsPlain '\x7b' ∧ IsPlain '\x7d' := by decide
  have hbreak (depth : Nat) : Plain (layout.newline depth) := (isSpace_newline layout depth).plain
  cases members with
  | nil => simp [ofTextMembers, write, hbraces]
  | cons member members =>
      have hmembers := plain_writeMembers h (depth + 1) members
      have hmember := plain_writeMember h (depth + 1) member.1 member.2
      rw [ofTextMembers, List.map_cons, write]
      simp only [plain_append, plain_cons]
      exact ⟨⟨⟨⟨⟨hbraces.1, hbreak _⟩, hmember⟩, hmembers⟩, hbreak _⟩, hbraces.2, plain_nil⟩

end Writing

end Checklist.Json
