import Checklist.Task.Codec
import Checklist.Proofs.Tokens
import Checklist.Proofs.DateTexts

/-!
# Data — what each part of a written line is read as

Behind its description a line carries data, each written in a part of its own: dates, a recurrence,
tags, dependencies. A `Datum` is such a part. Every scanner of a content finds in its text the datum
of its own kind and nothing else, so a row of data is read as the list of its data
(`tokens_append_data`), and blanking out all tokens leaves the words of the recurrences alone
(`words_strip_append_data`).
-/

namespace Checklist

open Text Scanner

/-- The recurrence as it is written. -/
def Recurrence.text (r : Recurrence) : Text :=
  Marker.recurrence :: ' ' :: (r.rule ++ if r.fromDone then " when done".toList else [])

/-- Whether the rule can be written behind its sign: collapsed, not empty, without signs. -/
structure Recurrence.Writable (r : Recurrence) : Prop where
  rule_ne_nil : r.rule ≠ []
  collapse_rule : collapse r.rule = r.rule
  unsigned : ∀ c ∈ r.rule, endsRule c = false

/-- A part of a line behind the description. -/
inductive Datum where
  /-- A date, with or without a space behind its sign. -/
  | date (kind : DateKind) (gap : Bool) (written : Text)
  | recurrence (r : Recurrence)
  | tag (name : Text)
  | dependency (name : Text)

namespace Datum

/-- The datum as it is written. -/
def text (style : TagStyle) : Datum → Text
  | .date kind gap written => kind.marker :: ((if gap then [' '] else []) ++ written)
  | .recurrence r => r.text
  | .tag name => Codec.formatTag style name
  | .dependency name => Marker.dependency :: name

/-- The sign that the datum begins with. -/
def sign : Datum → Char
  | .date kind _ _ => kind.marker
  | .recurrence _ => Marker.recurrence
  | .tag _ => Marker.tag
  | .dependency _ => Marker.dependency

/-- Whether the datum is read as it is written. -/
def Writable : Datum → Prop
  | .date _ _ written => ∃ day : Date, written = day.iso
  | .recurrence r => r.Writable
  | .tag name => name ≠ [] ∧ ∀ c ∈ name, Token.isTagChar c = true
  | .dependency name => name ≠ [] ∧ ∀ c ∈ name, Token.isReferenceChar c = true

/-- The date that the datum is. -/
def date? : Datum → Option (DateKind × Text)
  | .date kind _ written => some (kind, written)
  | _ => none

/-- The tag that the datum is. -/
def tag? : Datum → Option Text
  | .tag name => some name
  | _ => none

/-- The dependency that the datum is. -/
def dependency? : Datum → Option Text
  | .dependency name => some name
  | _ => none

/-- The recurrence that the datum is. -/
def recurrence? : Datum → Option Recurrence
  | .recurrence r => some r
  | _ => none

/-- The text of the datum, unless it is one of those that are left out. -/
def textUnless (style : TagStyle) (out : Datum → Bool) (datum : Datum) : Text :=
  if out datum then [' '] else datum.text style

variable {style : TagStyle} {datum : Datum}

/-- The sign of every datum ends the rule of a recurrence. -/
theorem endsRule_sign (datum : Datum) : endsRule datum.sign = true := by
  cases datum with
  | date kind gap written => exact endsRule_marker kind
  | recurrence r => exact endsRule_recurrence
  | tag name => exact endsRule_tag
  | dependency name => exact endsRule_dependency

/-- A datum begins with its sign. -/
theorem exists_text_eq (style : TagStyle) (datum : Datum) :
    ∃ s, datum.text style = datum.sign :: s := by
  cases datum with
  | date kind gap written => exact ⟨_, rfl⟩
  | recurrence r => exact ⟨_, rfl⟩
  | tag name => cases style <;> exact ⟨_, rfl⟩
  | dependency name => exact ⟨_, rfl⟩

/-- So every datum begins with a sign. -/
theorem signed (style : TagStyle) (datum : Datum) : Signed (datum.text style) := by
  obtain ⟨s, hs⟩ := datum.exists_text_eq style
  rw [hs]
  exact .cons datum.endsRule_sign s

/-- A datum that is left out is signed as well, being empty. -/
theorem signed_textUnless (style : TagStyle) (out : Datum → Bool) (datum : Datum) :
    Signed (datum.textUnless style out) := by
  unfold textUnless
  split
  · exact .of_blank (by simp)
  · exact datum.signed style

/-! ## The characters behind the sign -/

/-- A day in ISO form ends no rule. -/
theorem endsRule_of_mem_iso {day : Date} : ∀ c ∈ day.iso, endsRule c = false :=
  Date.forall_mem_iso (by decide) (by decide) day

/-- A tag ends no rule behind its sign. -/
theorem endsRule_of_isTagChar {c : Char} (h : Token.isTagChar c = true) : endsRule c = false := by
  cases hc : endsRule c with
  | false => rfl
  | true => simp [(class_of_endsRule hc).2.2.2.1] at h

/-- A dependency ends no rule behind its sign. -/
theorem endsRule_of_isReferenceChar {c : Char} (h : Token.isReferenceChar c = true) :
    endsRule c = false := by
  cases hc : endsRule c with
  | false => rfl
  | true => simp [(class_of_endsRule hc).2.2.1] at h

/-- A tag holds no blank. -/
theorem isBlank_of_isTagChar {c : Char} (h : Token.isTagChar c = true) : isBlank c = false := by
  cases hc : isBlank c with
  | false => rfl
  | true =>
      simp only [Token.isTagChar, isWord_eq_false_of_isBlank hc, Bool.false_or, Bool.or_eq_true,
        decide_eq_true_eq] at h
      rcases h with rfl | rfl <;> exact absurd hc (by decide)

/-- A dependency holds no blank. -/
theorem isBlank_of_isReferenceChar {c : Char} (h : Token.isReferenceChar c = true) :
    isBlank c = false := by
  refine isBlank_of_isTagChar ?_
  simp only [Token.isReferenceChar, Token.isTagChar, Bool.or_eq_true] at h ⊢
  rcases h with h | h
  · exact .inl (.inl h)
  · exact .inr h

/-- In a recurrence that can be written, only the sign in front ends a rule. -/
theorem endsRule_of_mem_recurrence {r : Recurrence} (h : r.Writable) {c : Char}
    (hc : c ∈ r.text) : c = Marker.recurrence ∨ endsRule c = false := by
  have hwords : ∀ c ∈ " when done".toList, endsRule c = false := forall_mem_of_all (by decide)
  simp only [Recurrence.text, List.mem_cons, List.mem_append] at hc
  rcases hc with rfl | rfl | hc | hc
  · exact .inl rfl
  · exact .inr (by decide)
  · exact .inr (h.unsigned c hc)
  · split at hc
    · exact .inr (hwords c hc)
    · exact absurd hc (by simp)

/-- The signs in a datum are its own. -/
theorem sign_of_mem_text (h : datum.Writable) {c : Char} (hc : c ∈ datum.text style) :
    endsRule c = false ∨ c = datum.sign := by
  cases datum with
  | date kind gap written =>
      obtain ⟨day, rfl⟩ := h
      simp only [text, List.mem_cons, List.mem_append] at hc
      rcases hc with rfl | hc | hc
      · exact .inr rfl
      · have hspace : endsRule ' ' = false := by decide
        split at hc
        · exact .inl (by simp_all)
        · exact absurd hc (by simp)
      · exact .inl (endsRule_of_mem_iso c hc)
  | recurrence r => exact (endsRule_of_mem_recurrence h hc).symm
  | tag name =>
      have hname : ∀ c ∈ name, endsRule c = false := fun c hc =>
        endsRule_of_isTagChar (h.2 c hc)
      cases style with
      | wrapped =>
          simp only [text, Codec.formatTag, List.mem_append, List.mem_cons, List.not_mem_nil,
            or_false] at hc
          rcases hc with (rfl | hc) | rfl
          · exact .inr rfl
          · exact .inl (hname c hc)
          · exact .inr rfl
      | bare =>
          simp only [text, Codec.formatTag, List.mem_cons] at hc
          rcases hc with rfl | hc
          · exact .inr rfl
          · exact .inl (hname c hc)
  | dependency name =>
      simp only [text, List.mem_cons] at hc
      rcases hc with rfl | hc
      · exact .inr rfl
      · exact .inl (endsRule_of_isReferenceChar (h.2 c hc))

/-- No datum holds the sign of a priority. -/
theorem isPriorityMarker_of_mem_text (h : datum.Writable) {c : Char}
    (hc : c ∈ datum.text style) : isPriorityMarker c = false := by
  rcases sign_of_mem_text h hc with hplain | rfl
  · simp only [endsRule, Bool.or_eq_false_iff] at hplain
    exact hplain.2
  · cases datum with
    | date kind gap written => exact isPriorityMarker_marker kind
    | recurrence r => rfl
    | tag name => rfl
    | dependency name => rfl

/-- No datum but a recurrence holds the sign of one. -/
theorem recurrence_not_mem_text (h : datum.Writable) (hnone : datum.recurrence? = none) :
    Marker.recurrence ∉ datum.text style := by
  intro hmem
  rcases sign_of_mem_text h hmem with hplain | hsign
  · rw [endsRule_recurrence] at hplain
    exact Bool.noConfusion hplain
  · cases datum with
    | date kind gap written =>
        have hne : ∀ kind : DateKind, Marker.recurrence ≠ kind.marker := by
          intro kind
          cases kind <;> decide
        exact hne kind hsign
    | recurrence r => exact absurd hnone (by simp [recurrence?])
    | tag name =>
        have hne : Marker.recurrence ≠ Marker.tag := by decide
        exact hne hsign
    | dependency name =>
        have hne : Marker.recurrence ≠ Marker.dependency := by decide
        exact hne hsign

/-- The only blank in a datum is the space. -/
theorem eq_space_of_mem_text (h : datum.Writable) {c : Char} (hc : c ∈ datum.text style)
    (hblank : isBlank c = true) : c = ' ' := by
  -- A sign is not blank, which leaves the gaps and the rule of a recurrence.
  have hsign : ∀ d, endsRule d = true → c ≠ d := by
    rintro d hd rfl
    rw [isBlank_of_endsRule hd] at hblank
    exact Bool.noConfusion hblank
  cases datum with
  | date kind gap written =>
      obtain ⟨day, rfl⟩ := h
      simp only [text, List.mem_cons, List.mem_append] at hc
      rcases hc with hc | hc | hc
      · exact absurd hc (hsign _ (endsRule_marker kind))
      · cases gap <;> simp_all
      · rw [Date.isBlank_of_mem_iso c hc] at hblank
        exact Bool.noConfusion hblank
  | recurrence r =>
      simp only [text, Recurrence.text, List.mem_cons, List.mem_append] at hc
      rcases hc with hc | hc | hc | hc
      · exact absurd hc (hsign _ endsRule_recurrence)
      · exact hc
      · exact eq_space_of_mem_collapse (h.collapse_rule.symm ▸ hc) hblank
      · have hwords : ∀ d ∈ " when done".toList, isBlank d = true → d = ' ' :=
          forall_mem_of_all (by decide)
        split at hc
        · exact hwords c hc hblank
        · exact absurd hc (by simp)
  | tag name =>
      have hname : c ∉ name := fun hc => by
        simp [isBlank_of_isTagChar (h.2 c hc)] at hblank
      have htag : c ≠ Marker.tag := hsign _ endsRule_tag
      cases style <;> simp_all [text, Codec.formatTag]
  | dependency name =>
      have hname : c ∉ name := fun hc => by
        simp [isBlank_of_isReferenceChar (h.2 c hc)] at hblank
      have hdependency : c ≠ Marker.dependency := hsign _ endsRule_dependency
      simp_all [text]

/-! ## A datum alone -/

/-- A day in ISO form has the shape of a date. -/
theorem dateShaped_iso (day : Date) : Token.DateShaped day.iso := by
  refine ⟨_, _, _, _, _, _, _, _, day.iso_eq, ?_⟩
  simp [isDigit_digitChar]

/-- A date is read as its kind and its text. -/
theorem date_pieces_date (kind : DateKind) (gap : Bool) (day : Date) :
    Token.date.pieces ((date kind gap day.iso).text style) = [.token (kind, day.iso)] := by
  have hgap : Token.skipGap ((if gap then [' '] else []) ++ day.iso) = day.iso := by
    have hselector : ∀ c ∈ day.iso, c ≠ Marker.selector :=
      Date.forall_mem_iso (by decide) (by decide) day
    cases hiso : day.iso with
    | nil => simpa [hiso] using day.length_iso
    | cons c s =>
        have hc := Date.isBlank_of_mem_iso (d := day) c (by simp [hiso])
        have hspace : ' ' ≠ Marker.selector := by decide
        cases gap <;> simp [Token.skipGap, Token.skipSelector, trimStart, hc, hspace,
          hselector c (by simp [hiso])]
  refine pieces_of_token ?_
  show ((DateKind.ofMarker? kind.marker).bind fun kind =>
    (Token.takeDate? (Token.skipGap _)).map fun found => ((kind, found.1), found.2)) = _
  rw [hgap, DateKind.ofMarker?_marker, Token.takeDate?_eq_some_iff.mpr
    ⟨(List.append_nil _).symm, dateShaped_iso day⟩]
  rfl

/-- A dependency is read as its name. -/
theorem dependency_pieces_dependency {name : Text} (hne : name ≠ [])
    (h : ∀ c ∈ name, Token.isReferenceChar c = true) :
    Token.dependency.pieces ((dependency name).text style) = [.token name] := by
  refine pieces_of_token ?_
  cases name with
  | nil => exact absurd rfl hne
  | cons c s =>
      have hselector : c ≠ Marker.selector := by
        have hc := h c (by simp)
        rintro rfl
        exact absurd hc (by decide +kernel)
      have hblank : isBlank c = false := isBlank_of_isReferenceChar (h c (by simp))
      have hgap : Token.skipGap (c :: s) = c :: s := by
        simp [Token.skipGap, Token.skipSelector, trimStart, hselector, hblank]
      rw [Token.dependency, if_pos rfl, hgap, List.takeWhile_eq_self_iff.mpr h,
        List.dropWhile_eq_nil_iff.mpr h]

/-- A tag is read as its name. -/
theorem tag_pieces_tag {name : Text} (hne : name ≠ [])
    (h : ∀ c ∈ name, Token.isTagChar c = true) :
    (Token.tag style).pieces ((tag name).text style) = [.token name] := by
  have htag : Token.isTagChar Marker.tag = false := by decide +kernel
  cases name with
  | nil => exact absurd rfl hne
  | cons c s =>
      cases style with
      | wrapped =>
          refine pieces_of_token (c := Marker.tag) (w := c :: s ++ [Marker.tag]) ?_
          obtain ⟨htake, hdrop⟩ := span_append htag (c :: s) []
          rw [Token.tag, Token.wrappedTag, if_pos rfl, htake, hdrop,
            List.takeWhile_eq_self_iff.mpr h, List.dropWhile_eq_nil_iff.mpr h]
          rfl
      | bare =>
          refine pieces_of_token (c := Marker.tag) (w := c :: s) ?_
          rw [Token.tag, Token.bareTag, if_pos ⟨rfl, rfl⟩, List.takeWhile_eq_self_iff.mpr h,
            List.dropWhile_eq_nil_iff.mpr h]

/-! ## Every datum under every scanner -/

/-- A datum holds no signs of a scanner whose signs are others than its own. -/
theorem unsigned_of_foreign {sign : Char → Bool} (hsigns : ∀ c, sign c = true → endsRule c = true)
    (h : datum.Writable) (hforeign : sign datum.sign = false) :
    ∀ c ∈ datum.text style, sign c = false := by
  intro c hc
  rcases sign_of_mem_text h hc with hplain | rfl
  · cases hsign : sign c with
    | false => rfl
    | true => rw [hsigns c hsign] at hplain; exact Bool.noConfusion hplain
  · exact hforeign

/-- A scanner whose signs are others than the datum's passes the datum over. -/
theorem pieces_of_foreign {α : Type} (style : TagStyle) {scan : Scanner α} {sign : Char → Bool}
    (hs : scan.StartsWith sign) (hsigns : ∀ c, sign c = true → endsRule c = true)
    (h : datum.Writable) (hforeign : sign datum.sign = false) :
    scan.pieces (datum.text style) = (datum.text style).map .plain :=
  pieces_of_unsigned hs (unsigned_of_foreign hsigns h hforeign)

/-- The scanner reads a datum as what is its own in it, and passes every other datum over. -/
def ReadBy {α : Type} (scan : Scanner α) (style : TagStyle) (own : Datum → Option α) : Prop :=
  ∀ datum : Datum, datum.Writable → scan.pieces (datum.text style) =
    match own datum with
    | some found => [.token found]
    | none => (datum.text style).map .plain

/-- Dates are read as dates, and the other data are passed over. -/
theorem readBy_date (style : TagStyle) : ReadBy Token.date style date? := by
  intro datum h
  have hforeign := pieces_of_foreign style Token.date_startsWith
    (fun c hc => by simp [endsRule, hc]) h
  cases datum with
  | date kind gap written =>
      obtain ⟨day, rfl⟩ := h
      exact date_pieces_date kind gap day
  | recurrence r => exact hforeign rfl
  | tag name => exact hforeign rfl
  | dependency name => exact hforeign rfl

/-- Tags are read as tags, and the other data are passed over. -/
theorem readBy_tag (style : TagStyle) : ReadBy (Token.tag style) style tag? := by
  intro datum h
  have hforeign := pieces_of_foreign style (Token.tag_startsWith style)
    (fun c hc => by simp [endsRule, of_decide_eq_true hc]) h
  cases datum with
  | date kind gap written => exact hforeign (by cases kind <;> rfl)
  | recurrence r => exact hforeign rfl
  | tag name => exact tag_pieces_tag h.1 h.2
  | dependency name => exact hforeign rfl

/-- Dependencies are read as dependencies, and the other data are passed over. -/
theorem readBy_dependency (style : TagStyle) :
    ReadBy Token.dependency style dependency? := by
  intro datum h
  have hforeign := pieces_of_foreign style Token.dependency_startsWith
    (fun c hc => by simp [endsRule, of_decide_eq_true hc]) h
  cases datum with
  | date kind gap written => exact hforeign (by cases kind <;> rfl)
  | recurrence r => exact hforeign rfl
  | tag name => exact hforeign rfl
  | dependency name => exact dependency_pieces_dependency h.1 h.2

/-- No datum is read as a priority. -/
theorem readBy_priority (style : TagStyle) :
    ReadBy Token.priority style fun _ => none := by
  intro datum h
  exact pieces_of_unsigned Token.priority_startsWith fun c hc => isPriorityMarker_of_mem_text h hc

/-! ## Rows of data -/

section Rows

variable {α : Type} {scan : Scanner α} {own : Datum → Option α} {data : List Datum}

/-- The one token of a datum is what is the scanner's own in it. -/
theorem tokens_text (hread : ReadBy scan style own) (h : datum.Writable) :
    scan.tokens (datum.text style) = (own datum).toList := by
  rw [tokens_eq_filterMap, hread datum h]
  cases own datum with
  | none => simp [value?]
  | some found => rfl

/-- A row of data is read as what is the scanner's own in it. -/
theorem tokens_append_data (hs : scan.Separable) (hread : ReadBy scan style own) (s : Text)
    (h : ∀ datum ∈ data, datum.Writable) :
    scan.tokens (s ++ spaced (data.map (text style))) = scan.tokens s ++ data.filterMap own := by
  have hsigned : ∀ part ∈ data.map (text style), Signed part := by
    intro part hpart
    obtain ⟨datum, -, rfl⟩ := List.mem_map.mp hpart
    exact datum.signed style
  rw [tokens_append_spaced hs s hsigned, List.flatMap_map,
    List.flatMap_congr fun datum hdatum => tokens_text hread (h datum hdatum)]
  exact congrArg (_ ++ ·) (List.filterMap_eq_flatMap_toList own data).symm

/-- Blanking out leaves the data that are not the scanner's own. -/
theorem blankOut_append_data (hs : scan.Separable) (hread : ReadBy scan style own)
    (out : Datum → Bool) (s : Text) (h : ∀ datum ∈ data, datum.Writable) :
    scan.blankOut (s ++ spaced (data.map (textUnless style out))) =
      scan.blankOut s ++
        spaced (data.map (textUnless style fun datum => out datum || (own datum).isSome)) := by
  have hsigned : ∀ part ∈ data.map (textUnless style out), Signed part := by
    intro part hpart
    obtain ⟨datum, -, rfl⟩ := List.mem_map.mp hpart
    exact datum.signed_textUnless style out
  have hspace : scan.blankOut [' '] = [' '] := blankOut_space_cons hs.toLawful []
  -- A datum that is out is a space already, and one of the scanner's own becomes a space.
  have hblank : ∀ datum ∈ data, scan.blankOut (datum.textUnless style out) =
      datum.textUnless style fun datum => out datum || (own datum).isSome := by
    intro datum hdatum
    cases hout : out datum with
    | true => simp [textUnless, hout, hspace]
    | false =>
        have hread := hread datum (h datum hdatum)
        simp only [textUnless, hout, Bool.false_or, Bool.false_eq_true, if_false]
        rw [blankOut_eq_map, hread]
        cases own datum with
        | none => exact map_shown_plain _
        | some found => simp [shown]
  rw [blankOut_append_spaced hs s hsigned, List.map_map]
  exact congrArg (fun parts => _ ++ spaced parts) (List.map_congr_left hblank)

end Rows

end Datum

/-! ## Taking all tokens out -/

/-- The text with every token blanked out, in the order in which a description is read. -/
def strip (style : TagStyle) (s : Text) : Text :=
  Token.dependency.blankOut ((Token.tag style).blankOut
    (Token.date.blankOut (Token.priority.blankOut s)))

/-- A description is what is left of a content, with its blanks collapsed, or a text that says there
is none. -/
theorem parseDescription_eq (style : TagStyle) (s : Text) :
    parseDescription style s =
      if (collapse (strip style s)).isEmpty then untitled else collapse (strip style s) :=
  rfl

section Strip

variable {style : TagStyle} {data : List Datum}

/-- Blanks at the end are kept. -/
theorem strip_append_space (s : Text) : strip style (s ++ [' ']) = strip style s ++ [' '] := by
  have hone : ∀ {α : Type} {scan : Scanner α}, scan.Separable → ∀ s,
      scan.blankOut (s ++ [' ']) = scan.blankOut s ++ [' '] := fun hs s =>
    blankOut_append_space hs.toLawful (hs.stops (.of_blank (by simp)))
  simp only [strip, hone Token.priority_separable, hone Token.date_separable,
    hone (Token.tag_separable style), hone Token.dependency_separable]

/-- Blanks at the start are kept. -/
theorem strip_space_cons (s : Text) : strip style (' ' :: s) = ' ' :: strip style s := by
  simp only [strip, blankOut_space_cons Token.priority_separable.toLawful,
    blankOut_space_cons Token.date_separable.toLawful,
    blankOut_space_cons (Token.tag_separable style).toLawful,
    blankOut_space_cons Token.dependency_separable.toLawful]

/-- Of a row of data only the recurrences are left. -/
theorem strip_append_data (s : Text) (h : ∀ datum ∈ data, datum.Writable) :
    strip style (s ++ spaced (data.map (Datum.text style))) =
      strip style s ++
        spaced (data.map (Datum.textUnless style fun datum => datum.recurrence?.isNone)) := by
  have hnone : data.map (Datum.text style) = data.map (Datum.textUnless style fun _ => false) :=
    rfl
  have hout : (fun datum : Datum => (((false || (none : Option Unit).isSome) ||
      datum.date?.isSome) || datum.tag?.isSome) || datum.dependency?.isSome) =
      fun datum => datum.recurrence?.isNone := by
    funext datum
    cases datum <;> rfl
  rw [hnone, strip,
    Datum.blankOut_append_data Token.priority_separable (Datum.readBy_priority style) _ _ h,
    Datum.blankOut_append_data Token.date_separable (Datum.readBy_date style) _ _ h,
    Datum.blankOut_append_data (Token.tag_separable style) (Datum.readBy_tag style) _ _ h,
    Datum.blankOut_append_data Token.dependency_separable (Datum.readBy_dependency style) _ _ h,
    hout]
  rfl

/-- Of the data behind a text, only the words of the recurrence are left when the tokens are taken
out. -/
theorem words_strip_append_data (s : Text) (h : ∀ datum ∈ data, datum.Writable) :
    words (strip style (s ++ spaced (data.map (Datum.text style)))) =
      words (strip style s) ++ (data.filterMap Datum.recurrence?).flatMap (words ·.text) := by
  rw [strip_append_data s h, words_append_spaced]
  refine congrArg (_ ++ ·) ?_
  clear h
  induction data with
  | nil => rfl
  | cons datum data ih =>
      rw [List.map_cons, List.flatMap_cons, ih]
      cases datum <;> rfl

/-- Of a datum alone nothing is left but a recurrence. -/
theorem words_strip_text (style : TagStyle) {datum : Datum} (h : datum.Writable) :
    words (strip style (datum.text style)) = datum.recurrence?.toList.flatMap (words ·.text) := by
  have hall : ∀ d ∈ [datum], d.Writable := by simpa using h
  have hnil : words (strip style []) = [] := by cases style <;> rfl
  have hone : words (strip style ([] ++ spaced ([datum].map (Datum.text style)))) = _ :=
    words_strip_append_data [] hall
  rw [List.map_singleton, List.nil_append, spaced_cons, spaced_nil, List.append_nil,
    strip_space_cons, words_cons_of_isBlank isBlank_space] at hone
  rw [hone, hnil, List.filterMap_eq_flatMap_toList, List.flatMap_singleton]
  rfl

end Strip

/-! ## The words "when done" in data -/

/-- A text without blanks does not hold the two words. -/
theorem whenDone_of_not_blank {s : Text} (h : ∀ c ∈ s, isBlank c = false)
    (before : Option Char) : Token.whenDone before s = none := by
  refine Option.eq_none_iff_forall_ne_some.mpr fun ⟨_, rest⟩ hfound => ?_
  obtain ⟨-, l, gap, d, rfl, -, ⟨hne, hgap⟩, -⟩ := Token.whenDone_eq_some_iff.mp hfound
  obtain ⟨c, gap, rfl⟩ := List.exists_cons_of_ne_nil hne
  have hc := h c (by simp)
  rw [hgap c List.mem_cons_self] at hc
  exact nomatch hc

/-- A text without blanks does not hold the two words "when done". -/
theorem whenDone_pieces_of_not_blank {s : Text} (h : ∀ c ∈ s, isBlank c = false)
    (before : Option Char) : Token.whenDone.piecesFrom 0 before s = s.map .plain :=
  piecesFrom_eq_map_of_none fun p c u hs =>
    whenDone_of_not_blank (fun d hd => h d (by simp [hs, hd])) _

namespace Recurrence

/-- The two words stand in a recurrence where its rule has them, and at its end. -/
theorem tokens_whenDone_text (r : Recurrence) :
    Token.whenDone.tokens r.text =
      Token.whenDone.tokens r.rule ++ if r.fromDone then [()] else [] := by
  have hsign : ∀ c ∈ [Marker.recurrence], (c = 'w' || c = 'W' : Bool) = false :=
    forall_mem_of_all (by decide)
  have hlast : Token.whenDone.tokens "when done".toList = [()] := by decide
  have hpieces : ∀ s : Text, Token.whenDone.tokens (Marker.recurrence :: ' ' :: s) =
      Token.whenDone.tokens s := fun s =>
    tokens_unsigned_space (s := [Marker.recurrence]) Token.whenDone_separable.toLawful
      Token.whenDone_startsWith hsign s
  rw [text, hpieces]
  cases r.fromDone with
  | false => simp
  | true =>
      have := tokens_append_space Token.whenDone_separable.toLawful (s := r.rule)
        Token.whenDone_stopsAt_words
      rw [hlast] at this
      exact this

end Recurrence

/-- No datum but a recurrence holds the two words. -/
theorem Datum.tokens_whenDone_text {style : TagStyle} {datum : Datum} (h : datum.Writable) :
    Token.whenDone.tokens (datum.text style) =
      datum.recurrence?.toList.flatMap (Token.whenDone.tokens ·.text) := by
  -- The two words have a blank between them, so a text without blanks does not hold them.
  have hone : ∀ s : Text, (∀ c ∈ s, isBlank c = false) → Token.whenDone.tokens s = [] := by
    intro s hs
    rw [tokens_eq_filterMap, pieces, whenDone_pieces_of_not_blank hs]
    simp [value?]
  cases datum with
  | date kind gap written =>
      obtain ⟨day, rfl⟩ := h
      -- A date may have a blank behind its sign; it holds no "w", however.
      refine tokens_of_unsigned Token.whenDone_startsWith ?_
      intro c hc
      have hday := Date.forall_mem_iso (P := fun c => (c = 'w' || c = 'W' : Bool) = false)
        (by decide) (by decide) day
      simp only [text, List.mem_cons, List.mem_append] at hc
      rcases hc with rfl | hc | hc
      · cases kind <;> rfl
      · cases gap <;> simp at hc
        subst hc
        rfl
      · exact hday c hc
  | recurrence r => exact (List.append_nil _).symm
  | tag name =>
      have hname : ∀ c ∈ name, isBlank c = false := fun c hc => isBlank_of_isTagChar (h.2 c hc)
      have htag : isBlank Marker.tag = false := by decide
      refine hone _ ?_
      intro c hc
      cases style with
      | wrapped =>
          simp only [text, Codec.formatTag, List.mem_append, List.mem_cons, List.not_mem_nil,
            or_false] at hc
          rcases hc with (rfl | hc) | rfl
          · exact htag
          · exact hname c hc
          · exact htag
      | bare =>
          rcases List.mem_cons.mp hc with rfl | hc
          · exact htag
          · exact hname c hc
  | dependency name =>
      refine hone _ ?_
      intro c hc
      rcases List.mem_cons.mp hc with rfl | hc
      · decide
      · exact isBlank_of_isReferenceChar (h.2 c hc)

/-- A row of data holds the two words where a recurrence in it does. -/
theorem tokens_whenDone_append_data {style : TagStyle} {data : List Datum} (s : Text)
    (h : ∀ datum ∈ data, datum.Writable) :
    Token.whenDone.tokens (s ++ spaced (data.map (Datum.text style))) =
      Token.whenDone.tokens s ++
        (data.filterMap Datum.recurrence?).flatMap (Token.whenDone.tokens ·.text) := by
  have hsigned : ∀ part ∈ data.map (Datum.text style), Signed part := by
    intro part hpart
    obtain ⟨datum, -, rfl⟩ := List.mem_map.mp hpart
    exact datum.signed style
  rw [tokens_append_spaced Token.whenDone_separable s hsigned]
  refine congrArg (_ ++ ·) ?_
  rw [List.flatMap_map, List.flatMap_congr fun datum hdatum =>
    Datum.tokens_whenDone_text (h datum hdatum)]
  rw [List.filterMap_eq_flatMap_toList, List.flatMap_assoc]

end Checklist
