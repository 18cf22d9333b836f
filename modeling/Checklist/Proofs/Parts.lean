import Checklist.Proofs.Data
import Checklist.Proofs.TokenEnds

/-!
# Parts — texts that the scanners take as a whole or not at all

The sign of a priority and every datum of a line are parts: each scanner of a description finds in
them one token or none, whatever stands before them and behind a space after them. So a row of parts
is stripped part by part (`strip_joinWith`), and one of the texts in it need not be a part.
-/

namespace Checklist

open Text Scanner

/-- A text that the scanner takes as a whole or not at all, and apart from what stands behind it. -/
structure Scanner.Solid {α : Type} (scan : Scanner α) (s : Text) : Prop where
  closed : scan.Closed s
  whole : scan.blankOut s = s ∨ scan.blankOut s = [' ']

/-- A text that keeps apart from what stands on either side of it. -/
structure Part (style : TagStyle) (s : Text) : Prop where
  signed : Signed s
  priority : Token.priority.Solid s
  date : Token.date.Solid s
  tag : (Token.tag style).Solid s
  dependency : Token.dependency.Solid s

section Parts

variable {α : Type} {scan : Scanner α} {style : TagStyle} {s : Text}

theorem Scanner.solid_of_unsigned (hl : scan.Lawful) {sign : Char → Bool}
    (hs : scan.StartsWith sign) (h : ∀ c ∈ s, sign c = false) : scan.Solid s :=
  ⟨closed_of_unsigned hl hs h, .inl (blankOut_of_unsigned hs h)⟩

theorem Scanner.solid_of_token (hl : scan.Lawful) (hf : scan.Firm) {value : α}
    (h : scan.pieces s = [.token value]) : scan.Solid s := by
  refine ⟨closed_of_token hl hf h, .inr ?_⟩
  rw [blankOut_eq_map, h]
  rfl

/-- Blanks are a part, as far as they are spaces. -/
theorem Part.of_spaces (style : TagStyle) (h : ∀ c ∈ s, c = ' ') : Part style s := by
  have hblank : ∀ c ∈ s, isBlank c = true := fun c hc => h c hc ▸ isBlank_space
  refine ⟨.of_blank hblank, ?_, ?_, ?_, ?_⟩
  · exact solid_of_unsigned Token.priority_separable.toLawful Token.priority_startsWith
      fun c hc => h c hc ▸ by decide
  · exact solid_of_unsigned Token.date_separable.toLawful Token.date_startsWith
      fun c hc => h c hc ▸ by decide
  · exact solid_of_unsigned (Token.tag_separable style).toLawful (Token.tag_startsWith style)
      fun c hc => h c hc ▸ by decide
  · exact solid_of_unsigned Token.dependency_separable.toLawful Token.dependency_startsWith
      fun c hc => h c hc ▸ by decide

/-- What a scanner leaves of a part is a part. -/
theorem Part.of_whole {t : Text} (h : Part style s) (ht : t = s ∨ t = [' ']) : Part style t := by
  rcases ht with rfl | rfl
  · exact h
  · exact .of_spaces style (by simp)

/-- The sign of a priority is a part. -/
theorem Part.of_isPriorityMarker (style : TagStyle) {c : Char} (hc : isPriorityMarker c = true) :
    Part style [c] := by
  have hpieces : Token.priority.pieces [c] = [.token ()] :=
    pieces_of_token (Token.priority_eq_some_iff.mpr ⟨hc, rfl⟩)
  have hforeign : ∀ {sign : Char → Bool}, (∀ d, isPriorityMarker d = true → sign d = false) →
      ∀ d ∈ [c], sign d = false := fun hsign d hd => List.mem_singleton.mp hd ▸ hsign c hc
  refine ⟨.cons (by simp [endsRule, hc]) [],
    solid_of_token Token.priority_separable.toLawful Token.priority_firm hpieces, ?_, ?_, ?_⟩
  · refine solid_of_unsigned Token.date_separable.toLawful Token.date_startsWith (hforeign ?_)
    intro d hd
    rcases isPriorityMarker_iff.mp hd with rfl | rfl <;> decide
  · refine solid_of_unsigned (Token.tag_separable style).toLawful (Token.tag_startsWith style)
      (hforeign ?_)
    intro d hd
    rcases isPriorityMarker_iff.mp hd with rfl | rfl <;> decide
  · refine solid_of_unsigned Token.dependency_separable.toLawful Token.dependency_startsWith
      (hforeign ?_)
    intro d hd
    rcases isPriorityMarker_iff.mp hd with rfl | rfl <;> decide

/-- A datum is one token of its scanner, and holds no sign of any other. -/
theorem Datum.solid (hl : scan.Lawful) (hf : scan.Firm) {sign : Char → Bool}
    (hs : scan.StartsWith sign) (hsigns : ∀ c, sign c = true → endsRule c = true)
    {own : Datum → Option α} (hread : Datum.ReadBy scan style own) {datum : Datum}
    (h : datum.Writable) (hown : own datum = none → sign datum.sign = false) :
    scan.Solid (datum.text style) := by
  cases hdatum : own datum with
  | none => exact solid_of_unsigned hl hs (Datum.unsigned_of_foreign hsigns h (hown hdatum))
  | some found =>
      have hpieces := hread datum h
      rw [hdatum] at hpieces
      exact solid_of_token hl hf hpieces

/-- Every datum is a part. -/
theorem Part.of_datum (style : TagStyle) {datum : Datum} (h : datum.Writable) :
    Part style (datum.text style) := by
  refine ⟨datum.signed style, ?_, ?_, ?_, ?_⟩
  · exact solid_of_unsigned Token.priority_separable.toLawful Token.priority_startsWith
      fun c hc => Datum.isPriorityMarker_of_mem_text h hc
  · refine Datum.solid Token.date_separable.toLawful Token.date_firm Token.date_startsWith
      (fun c hc => by simp [endsRule, hc]) (Datum.readBy_date style) h fun hnone => ?_
    cases datum with
    | date kind gap written => exact absurd hnone (by simp [Datum.date?])
    | recurrence r => rfl
    | tag name => rfl
    | dependency name => rfl
  · refine Datum.solid (Token.tag_separable style).toLawful (Token.tag_firm style)
      (Token.tag_startsWith style) (fun c hc => by simp [endsRule, of_decide_eq_true hc])
      (Datum.readBy_tag style) h fun hnone => ?_
    cases datum with
    | date kind gap written => cases kind <;> rfl
    | recurrence r => rfl
    | tag name => exact absurd hnone (by simp [Datum.tag?])
    | dependency name => rfl
  · refine Datum.solid Token.dependency_separable.toLawful Token.dependency_firm
      Token.dependency_startsWith (fun c hc => by simp [endsRule, of_decide_eq_true hc])
      (Datum.readBy_dependency style) h fun hnone => ?_
    cases datum with
    | date kind gap written => cases kind <;> rfl
    | recurrence r => rfl
    | tag name => rfl
    | dependency name => exact absurd hnone (by simp [Datum.dependency?])

/-- A row of texts, one of which at most is no part, is stripped text by text. -/
theorem strip_joinWith {texts : List Text}
    (h : texts.Pairwise fun s u => Part style s ∨ Part style u) :
    strip style (joinWith [' '] texts) = joinWith [' '] (texts.map (strip style)) := by
  -- What a scanner leaves of the row is such a row again.
  have hstep : ∀ {β : Type} {scan : Scanner β}, (∀ {s}, Part style s → scan.Solid s) →
      ∀ {texts : List Text}, texts.Pairwise (fun s u => Part style s ∨ Part style u) →
        (texts.map scan.blankOut).Pairwise fun s u => Part style s ∨ Part style u := by
    intro β scan hsolid texts h
    refine List.pairwise_map.mpr (h.imp fun hpart => ?_)
    exact hpart.imp (fun hs => hs.of_whole (hsolid hs).whole) fun hu =>
      hu.of_whole (hsolid hu).whole
  have hclosed : ∀ {β : Type} {scan : Scanner β}, (∀ {s}, Part style s → scan.Solid s) →
      ∀ {texts : List Text}, texts.Pairwise (fun s u => Part style s ∨ Part style u) →
        texts.Pairwise fun s u => scan.Closed s ∨ Signed u := fun hsolid _ h =>
    h.imp fun hpart => hpart.imp (fun hs => (hsolid hs).closed) fun hu => hu.signed
  have hpriority := hstep (fun {_} hs => hs.priority) h
  have hdate := hstep (fun {_} hs => hs.date) hpriority
  have htag := hstep (fun {_} hs => hs.tag) hdate
  rw [strip, blankOut_joinWith Token.priority_separable (hclosed (fun {_} hs => hs.priority) h),
    blankOut_joinWith Token.date_separable (hclosed (fun {_} hs => hs.date) hpriority),
    blankOut_joinWith (Token.tag_separable style) (hclosed (fun {_} hs => hs.tag) hdate),
    blankOut_joinWith Token.dependency_separable (hclosed (fun {_} hs => hs.dependency) htag),
    List.map_map, List.map_map, List.map_map]
  rfl

end Parts

end Checklist
