import Checklist.Proofs.Recurring
import Checklist.Proofs.WrittenLine

/-!
# Rereading — when a written line is read as the task it was written for

A readable task keeps all its data when its line is read again, but its description and its
recurrence share one text, in which a token of the description, or a second recurrence, goes astray.
`Task.Faithful` says exactly when they do not: the line of a readable task is read as a task that
says the same if and only if the task is faithful (`parse_format_iff`).

The route: a description with the data behind it is a row, of which the first recurrence is cut
out and the tokens are stripped. What is left has the words of the description only if nothing
but a recurrence of the task itself was taken away, and then there is one to take its place behind.
-/

namespace Checklist

open Text Scanner

/-- Whether the description and the recurrence of a task can be told apart in its line. -/
structure Task.Faithful (style : TagStyle) (t : Task) : Prop where
  no_date : Token.date.finds t.description = false
  no_tag : (Token.tag style).finds t.description = false
  no_dependency : Token.dependency.finds t.description = false
  /-- Recurrences in the description are the task's own, and stand behind everything else. -/
  copies : ∃ (lead : List Text) (n : Nat), (∀ w ∈ lead, Marker.recurrence ∉ w) ∧
    words t.description =
      lead ++ (List.replicate n (words (t.recurrence.elim [] Recurrence.text))).flatten
  rule : ∀ r, t.recurrence = some r → Token.whenDone.finds r.rule = false
  /-- The words "when done" stand in no description but of a task that counts from then. -/
  fromDone : ∀ r, t.recurrence = some r → r.fromDone = false →
    Token.whenDone.finds t.description = false

namespace Text

/-- A collapsed text is the row of its words. -/
theorem spaced_words {s : Text} (h : collapse s = s) (hne : s ≠ []) :
    spaced (words s) = ' ' :: s := by
  cases hws : words s with
  | nil => exact absurd (h.symm.trans (collapse_eq_nil_iff.mpr hws)) hne
  | cons w ws =>
      have hs : s = w ++ spaced ws := by
        rw [← joinWith_space_cons, ← hws]
        exact h.symm
      rw [spaced_cons, ← hs]

end Text

theorem Recurrence.spaced_words_text {r : Recurrence} (hr : r.Writable) :
    spaced (words r.text) = ' ' :: r.text := by
  have hsign : words (Marker.recurrence :: ' ' :: r.tail) = [Marker.recurrence] :: words r.tail :=
    words_append_blank (s := [Marker.recurrence]) isBlank_space r.tail
  have hrule := spaced_words hr.collapse_rule hr.rule_ne_nil
  have hwords : words r.tail = words r.rule ++
      if r.fromDone then ["when".toList, "done".toList] else [] := by
    rw [Recurrence.tail]
    cases r.fromDone with
    | false => simp
    | true => exact words_append_blank isBlank_space r.rule "when done".toList
  rw [text_eq, hsign, hwords, spaced_cons, spaced_append, hrule, Recurrence.tail]
  cases r.fromDone with
  | false => simp
  | true => simp

/-! ## Blanking out what is not there -/

/-- Stripping takes off at least as much ink as there are tokens, each scanner looking at what the
ones before it left. -/
theorem ink_strip_add_le (style : TagStyle) (s : Text) :
    ink (strip style s) + (Token.priority.tokens s).length +
        (Token.date.tokens (Token.priority.blankOut s)).length +
        ((Token.tag style).tokens (Token.date.blankOut (Token.priority.blankOut s))).length +
        (Token.dependency.tokens
          ((Token.tag style).blankOut (Token.date.blankOut (Token.priority.blankOut s)))).length ≤
      ink s := by
  have hpriority := ink_blankOut_le Token.priority_separable.toLawful s
  have hdate := ink_blankOut_le Token.date_separable.toLawful (Token.priority.blankOut s)
  have htag := ink_blankOut_le (Token.tag_separable style).toLawful
    (Token.date.blankOut (Token.priority.blankOut s))
  have hdependency := ink_blankOut_le Token.dependency_separable.toLawful
    ((Token.tag style).blankOut (Token.date.blankOut (Token.priority.blankOut s)))
  rw [strip]
  omega

/-- A text that keeps its words when it is stripped holds nothing to take out. -/
theorem tokens_eq_nil_of_words_strip {style : TagStyle} {s : Text}
    (h : words (strip style s) = words s) :
    Token.date.tokens s = [] ∧ (Token.tag style).tokens s = [] ∧
      Token.dependency.tokens s = [] := by
  have hink := ink_strip_add_le style s
  rw [ink_eq_of_words_eq h] at hink
  -- No ink is lost, so each scanner finds nothing and hands the text on as it is.
  have hpriority : Token.priority.blankOut s = s :=
    blankOut_of_tokens_eq_nil (List.length_eq_zero_iff.mp (by omega))
  rw [hpriority] at hink
  have hdate : Token.date.tokens s = [] := List.length_eq_zero_iff.mp (by omega)
  rw [blankOut_of_tokens_eq_nil hdate] at hink
  have htag : (Token.tag style).tokens s = [] := List.length_eq_zero_iff.mp (by omega)
  rw [blankOut_of_tokens_eq_nil htag] at hink
  exact ⟨hdate, htag, List.length_eq_zero_iff.mp (by omega)⟩

/-- Stripping a text without tokens changes nothing. -/
theorem strip_of_tokens_eq_nil {style : TagStyle} {s : Text}
    (hpriority : ∀ c ∈ s, isPriorityMarker c = false) (hdate : Token.date.tokens s = [])
    (htag : (Token.tag style).tokens s = []) (hdependency : Token.dependency.tokens s = []) :
    strip style s = s := by
  rw [strip, blankOut_of_unsigned Token.priority_startsWith hpriority,
    blankOut_of_tokens_eq_nil hdate, blankOut_of_tokens_eq_nil htag,
    blankOut_of_tokens_eq_nil hdependency]

/-- Cutting a recurrence out takes ink off the text. -/
theorem ink_cutRecurrence?_lt {s rule rest : Text}
    (h : Token.cutRecurrence? s = some (rule, rest)) : ink rest < ink s := by
  obtain ⟨⟨before, after⟩, hcut, heq⟩ := Option.map_eq_some_iff.mp h
  obtain ⟨rfl, rfl⟩ := Prod.mk.inj heq
  obtain ⟨rfl, -⟩ := cutAt?_eq_some_iff.mp hcut
  obtain ⟨w, hw⟩ := Token.skipGap_suffix after
  have hgap := List.takeWhile_append_dropWhile (p := Token.isRuleChar) (l := Token.skipGap after)
  have hafter : ink after = ink w + (ink ((Token.skipGap after).takeWhile Token.isRuleChar) +
      ink ((Token.skipGap after).dropWhile Token.isRuleChar)) := by
    rw [← ink_append, hgap, ← ink_append, ← hw]
  have hsign : ∀ u, ink (Marker.recurrence :: u) = ink u + 1 := fun u => by
    simp [ink, isBlank_of_endsRule endsRule_recurrence]
  have hspace : ∀ u, ink (' ' :: u) = ink u := fun u => by simp [ink]
  simp only [ink_append, hsign, hspace]
  omega

/-! ## Copies of the recurrence in a description -/

/-- When cutting the first recurrence out of a row of words and stripping the rest leaves all but
the words of `r`, the row ends in copies of `r`, and there is nothing to strip before them. -/
theorem exists_copies {style : TagStyle} {r : Recurrence} (hr : r.Writable) (ws : List Text)
    {rule rest : Text} (hcut : Token.cutRecurrence? (spaced ws) = some (rule, rest))
    (h : ws = words (strip style rest) ++ words r.text) :
    ∃ lead n, ws = lead ++ (List.replicate n (words r.text)).flatten ∧
      Marker.recurrence ∉ spaced lead ∧ words (strip style (spaced lead)) = lead := by
  have hrow : spaced ws = spaced (words (strip style rest)) ++
      spaced ([.recurrence r].map (Datum.text style)) := by
    rw [h, spaced_append, Recurrence.spaced_words_text hr]
    simp [Datum.text]
  have hdata : ∀ datum ∈ [Datum.recurrence r], datum.Writable := by
    intro datum hdatum
    rw [List.mem_singleton.mp hdatum]
    exact hr
  rw [hrow] at hcut
  cases hfirst : Token.cutRecurrence? (spaced (words (strip style rest))) with
  | none =>
      have hmem := cutRecurrence?_eq_none_iff.mp hfirst
      obtain ⟨rule', rest', hcut', -, hrest⟩ := cutRecurrence?_data style hmem hdata rfl
      obtain ⟨-, rfl⟩ := Prod.mk.inj (Option.some.inj (hcut.symm.trans hcut'))
      refine ⟨words (strip style rest), 1, by simpa using h, hmem, ?_⟩
      simpa using hrest.symm
  | some found =>
      -- the row without its last recurrence still holds one, so it is of the same kind
      obtain ⟨rule₁, rest₁⟩ := found
      obtain ⟨rule', rest', hcut', -, hrest⟩ := cutRecurrence?_append_data style hfirst hdata
      obtain ⟨-, rfl⟩ := Prod.mk.inj (Option.some.inj (hcut.symm.trans hcut'))
      have hwords : words (strip style rest) = words (strip style rest₁) ++ words r.text := by
        simpa [Datum.recurrence?] using hrest
      have hlen : (words (strip style rest)).length < ws.length := by
        have hpos : words r.text ≠ [] := words_ne_nil_of_head (by decide)
        rw [h, List.length_append]
        have := List.length_pos_iff.mpr hpos
        omega
      obtain ⟨lead, n, hlead, hmem, hstrip⟩ :=
        exists_copies hr (words (strip style rest)) hfirst hwords
      refine ⟨lead, n + 1, ?_, hmem, hstrip⟩
      rw [h, hlead, List.replicate_succ', List.flatten_append]
      simp
termination_by ws.length

/-- Copies of the recurrence of a task, if it has one. -/
def Task.copies (t : Task) (n : Nat) : List Datum :=
  (List.replicate n t.recurrence.toList).flatten.map .recurrence

theorem copies_writable {t : Task} (h : t.Readable) (n : Nat) :
    ∀ datum ∈ t.copies n, datum.Writable := by
  intro datum hdatum
  obtain ⟨r, hr, rfl⟩ := List.mem_map.mp hdatum
  obtain ⟨rs, hrs, hr⟩ := List.mem_flatten.mp hr
  rw [List.eq_of_mem_replicate hrs] at hr
  exact h.recurrence r (Option.mem_toList.mp hr)

theorem filterMap_recurrence?_copies (t : Task) (n : Nat) :
    (t.copies n).filterMap Datum.recurrence? = (List.replicate n t.recurrence.toList).flatten := by
  rw [Task.copies, List.filterMap_map]
  exact List.filterMap_some

theorem words_copies (t : Task) (n : Nat) :
    (List.replicate n t.recurrence.toList).flatten.flatMap (words ·.text) =
      (List.replicate n (words (t.recurrence.elim [] Recurrence.text))).flatten := by
  induction n with
  | zero => rfl
  | succ n ih =>
      rw [List.replicate_succ, List.flatten_cons, List.flatMap_append, ih, List.replicate_succ,
        List.flatten_cons]
      cases t.recurrence with
      | none => rfl
      | some r => simp

/-- A description that ends in copies of the recurrence is a row of data behind its first words. -/
theorem cons_description_eq {t : Task} (h : t.Readable) (style : TagStyle) {lead : List Text}
    {n : Nat}
    (hwords : words t.description =
      lead ++ (List.replicate n (words (t.recurrence.elim [] Recurrence.text))).flatten) :
    ' ' :: t.description = spaced lead ++ spaced ((t.copies n).map (Datum.text style)) := by
  have hcopies : spaced (List.replicate n (words (t.recurrence.elim [] Recurrence.text))).flatten =
      spaced ((t.copies n).map (Datum.text style)) := by
    cases hr : t.recurrence with
    | none => simp [Task.copies, hr, words]
    | some r =>
        have hone := Recurrence.spaced_words_text (h.recurrence r hr)
        clear hwords
        induction n with
        | zero => rfl
        | succ n ih =>
            rw [List.replicate_succ, List.flatten_cons, spaced_append, ih]
            show spaced (words r.text) ++ _ = _
            rw [hone]
            simp [Task.copies, hr, List.replicate_succ, Datum.text]
  rw [← spaced_words h.collapse_description h.description_ne_nil, hwords, spaced_append, hcopies]

/-! ## Reading the content of a written line -/

section Content

variable {codec : Codec} {t : Task} {s : Text} {row : List Datum}

theorem recurrence_not_mem_lead (p : Priority) : Marker.recurrence ∉ p.lead := by
  cases p <;> decide

/-- The first recurrence of a written content, when its description is a row of data behind `s`. -/
theorem cutRecurrence?_content (h : t.Readable) (hs : Marker.recurrence ∉ s)
    (hrow : ∀ datum ∈ row, datum.Writable)
    (hd : ' ' :: t.description = s ++ spaced (row.map (Datum.text codec.style)))
    {r : Recurrence} {rs : List Recurrence}
    (hrec : row.filterMap Datum.recurrence? ++ t.recurrence.toList = r :: rs) :
    ∃ rule rest, Token.cutRecurrence? (codec.content t) = some (rule, rest) ∧
      words (Token.whenDone.blankOut rule) = words (Token.whenDone.blankOut r.tail) ∧
      words (strip codec.style rest) =
        words (strip codec.style s) ++ rs.flatMap (words ·.text) := by
  have hall : ∀ datum ∈ row ++ codec.data t, datum.Writable := by
    intro datum hdatum
    rcases List.mem_append.mp hdatum with hdatum | hdatum
    · exact hrow datum hdatum
    · exact Codec.data_writable h datum hdatum
  have hrec' : (row ++ codec.data t).filterMap Datum.recurrence? = r :: rs := by
    rw [List.filterMap_append, Codec.filterMap_recurrence?_data, hrec]
  obtain ⟨rule, rest, hcut, hrule, hrest⟩ := cutRecurrence?_data codec.style hs hall hrec'
  -- the space before the description is not part of the content, but does not matter
  have hspace : Marker.recurrence ∉ [' '] := by decide
  have hcons : s ++ spaced ((row ++ codec.data t).map (Datum.text codec.style)) =
      [' '] ++ (t.description ++ spaced ((codec.data t).map (Datum.text codec.style))) := by
    rw [List.map_append, spaced_append, ← List.append_assoc, ← hd]
    rfl
  rw [hcons, cutRecurrence?_append_left hspace] at hcut
  obtain ⟨⟨rule', behind⟩, hbehind, heq⟩ := Option.map_eq_some_iff.mp hcut
  obtain ⟨rfl, rfl⟩ := Prod.mk.inj heq
  refine ⟨rule', t.priority.lead ++ behind, ?_, hrule, ?_⟩
  · rw [Codec.content, cutRecurrence?_append_left (recurrence_not_mem_lead _), hbehind]
    rfl
  · rw [Codec.words_strip_lead, ← hrest]
    show _ = words (strip codec.style (' ' :: behind))
    rw [strip_space_cons, words_cons_of_isBlank isBlank_space]

/-- A content without recurrences is left whole. -/
theorem cutRecurrence?_content_eq_none (codec : Codec) (h : t.Readable)
    (hd : Marker.recurrence ∉ t.description)
    (hrec : t.recurrence = none) :
    Token.cutRecurrence? (codec.content t) = none ∧
      words (strip codec.style (codec.content t)) = words (strip codec.style t.description) := by
  have hnone : (codec.data t).filterMap Datum.recurrence? = [] := by
    rw [Codec.filterMap_recurrence?_data, hrec]
    rfl
  constructor
  · rw [Codec.content, cutRecurrence?_append_left (recurrence_not_mem_lead _),
      cutRecurrence?_eq_none_iff.mpr (recurrence_not_mem_data hd (Codec.data_writable h) hnone)]
    rfl
  · rw [Codec.content, Codec.words_strip_lead,
      words_strip_append_data _ (Codec.data_writable h), hnone]
    exact List.append_nil _

end Content

/-! ## The recurrence and the description that are read -/

theorem words_whenDone_tail (r : Recurrence) :
    words (Token.whenDone.blankOut r.tail) = words (Token.whenDone.blankOut r.rule) := by
  have hlast : words (Token.whenDone.blankOut "when done".toList) = [] := by decide
  rw [Recurrence.tail]
  cases r.fromDone with
  | false => simp
  | true =>
      have := blankOut_append_space Token.whenDone_separable.toLawful (s := r.rule)
        Token.whenDone_stopsAt_words
      show words (Token.whenDone.blankOut (r.rule ++ ' ' :: "when done".toList)) = _
      rw [this, words_append_blank isBlank_space, hlast, List.append_nil]

/-- A rule is read as it is if and only if it does not hold the words "when done". -/
theorem collapse_whenDone_tail_iff {r : Recurrence} (hr : r.Writable) :
    collapse (Token.whenDone.blankOut r.tail) = r.rule ↔ Token.whenDone.finds r.rule = false := by
  have hcollapse : collapse (Token.whenDone.blankOut r.tail) =
      collapse (Token.whenDone.blankOut r.rule) := by
    rw [collapse, words_whenDone_tail]
    rfl
  rw [hcollapse, finds_eq_false_iff]
  constructor
  · intro h
    have hwords : words (Token.whenDone.blankOut r.rule) = words r.rule := by
      rw [← words_collapse, h]
    exact tokens_eq_nil_of_ink_le Token.whenDone_separable.toLawful (ink_eq_of_words_eq hwords).ge
  · intro h
    rw [blankOut_of_tokens_eq_nil h, hr.collapse_rule]

theorem parseRecurrence_of_cut {content rule rest : Text}
    (h : Token.cutRecurrence? content = some (rule, rest)) (line : Text) :
    parseRecurrence content line =
      (if (collapse (Token.whenDone.blankOut rule)).isEmpty then none
        else some ⟨collapse (Token.whenDone.blankOut rule), Token.whenDone.finds line⟩, rest) := by
  rw [parseRecurrence, h]

theorem parseRecurrence_of_not_mem {content : Text} (h : Token.cutRecurrence? content = none)
    (line : Text) : parseRecurrence content line = (none, content) := by
  rw [parseRecurrence, h]

/-- What is left when the tokens are stripped is the description, when it has its words. -/
theorem parseDescription_of_words {style : TagStyle} {s d : Text} (hd : collapse d = d)
    (hne : d ≠ []) (h : words (strip style s) = words d) : parseDescription style s = d := by
  have hcollapse : collapse (strip style s) = d := by
    rw [collapse, h]
    exact hd
  rw [parseDescription_eq, hcollapse, if_neg (by simpa using hne)]

theorem words_of_parseDescription {style : TagStyle} {s d : Text}
    (h : collapse (parseDescription style s) = d) :
    words (strip style s) = words d ∨ words (strip style s) = [] ∧ d = untitled := by
  rw [parseDescription_eq] at h
  split at h
  · next hempty =>
      have huntitled : collapse untitled = untitled := by decide
      rw [List.isEmpty_iff, collapse_eq_nil_iff] at hempty
      exact .inr ⟨hempty, h.symm.trans huntitled⟩
  · left
    rw [← h, words_collapse, words_collapse]

namespace Codec

variable {codec : Codec} {t : Task}

/-- A written line is read, whatever becomes of its description and its recurrence. -/
theorem parse_format_eq (h : t.Readable) :
    codec.parse (codec.format t) t.id t.provenance =
      some (Item.toTask ⟨t.indent, t.status.mark, codec.content t⟩ codec.style (codec.format t) t.id
        t.provenance) := by
  rw [parse, ofLine?_format h]
  rfl

/-- What is read of a recurrence when the description ends in copies of it. -/
theorem parseRecurrence_content (h : t.Readable) {lead : List Text} {n : Nat}
    (hlead : Marker.recurrence ∉ spaced lead) {r : Recurrence} (hr : t.recurrence = some r)
    (hwords : words t.description = lead ++ (List.replicate n (words r.text)).flatten)
    (line : Text) :
    ∃ rest, parseRecurrence (codec.content t) line =
        (if (collapse (Token.whenDone.blankOut r.tail)).isEmpty then none
          else some ⟨collapse (Token.whenDone.blankOut r.tail), Token.whenDone.finds line⟩, rest) ∧
      words (strip codec.style rest) = words (strip codec.style (spaced lead)) ++
        (List.replicate n (words r.text)).flatten := by
  have helim : words (t.recurrence.elim [] Recurrence.text) = words r.text := by rw [hr]; rfl
  have hd := cons_description_eq h codec.style (n := n) (by rw [helim]; exact hwords)
  -- Of the copies and the recurrence behind them, the first is cut and the others are left.
  have hrec : (t.copies n).filterMap Datum.recurrence? ++ t.recurrence.toList =
      r :: (List.replicate n t.recurrence.toList).flatten := by
    rw [filterMap_recurrence?_copies, hr]
    clear hd hwords
    induction n with
    | zero => rfl
    | succ n ih =>
        rw [List.replicate_succ, List.flatten_cons, List.append_assoc, ih]
        rfl
  obtain ⟨rule, rest, hcut, hrule, hrest⟩ :=
    cutRecurrence?_content h hlead (copies_writable h n) hd hrec
  refine ⟨rest, ?_, ?_⟩
  · rw [parseRecurrence_of_cut hcut, collapse, hrule]
    rfl
  · rw [hrest, words_copies, helim]

theorem finds_whenDone_format (h : t.Readable) {r : Recurrence} (hr : t.recurrence = some r)
    (hrule : Token.whenDone.finds r.rule = false) :
    Token.whenDone.finds (codec.format t) = (Token.whenDone.finds t.description || r.fromDone) := by
  have htokens : Token.whenDone.tokens (codec.format t) =
      Token.whenDone.tokens t.description ++ if r.fromDone then [()] else [] := by
    have hone : (some r).toList.flatMap (Token.whenDone.tokens ·.text) =
        Token.whenDone.tokens r.text :=
      List.append_nil _
    rw [tokens_whenDone_format h, hr, hone, r.tokens_whenDone_text, finds_eq_false_iff.mp hrule]
    rfl
  rw [finds, finds, htokens]
  cases r.fromDone with
  | false => simp
  | true => simp

/-- What stands before the copies in a description without tokens is kept when it is stripped. -/
theorem words_strip_lead_of_faithful (h : t.Readable) (hf : t.Faithful codec.style)
    {lead : List Text} {n : Nat}
    (hwords : words t.description =
      lead ++ (List.replicate n (words (t.recurrence.elim [] Recurrence.text))).flatten) :
    words (strip codec.style (spaced lead)) = lead := by
  have hd := cons_description_eq h codec.style hwords
  have hlead : lead.flatMap words = lead := by
    refine flatMap_words (s := t.description) ?_
    intro w hw
    rw [hwords]
    exact List.mem_append_left _ hw
  have hpriority : ∀ c ∈ spaced lead, isPriorityMarker c = false := by
    intro c hc
    have hmem : c ∈ ' ' :: t.description := by
      rw [hd]
      exact List.mem_append_left _ hc
    rcases List.mem_cons.mp hmem with rfl | hmem
    · decide
    · exact h.no_priority c hmem
  -- The lead is a part of the description, in which no scanner finds anything.
  have hnone : ∀ {α : Type} {scan : Scanner α} {own : Datum → Option α}, scan.Separable →
      Datum.ReadBy scan codec.style own → scan.finds t.description = false →
      scan.tokens (spaced lead) = [] := by
    intro α scan own hs hread hfinds
    have htokens := Datum.tokens_append_data hs hread (spaced lead) (copies_writable h n)
    rw [← hd, tokens_space_cons hs.toLawful, finds_eq_false_iff.mp hfinds] at htokens
    exact (List.append_eq_nil_iff.mp htokens.symm).1
  rw [strip_of_tokens_eq_nil hpriority (hnone Token.date_separable (Datum.readBy_date _) hf.no_date)
    (hnone (Token.tag_separable _) (Datum.readBy_tag _) hf.no_tag)
    (hnone Token.dependency_separable (Datum.readBy_dependency _) hf.no_dependency),
    words_spaced, hlead]

/-- The description and the recurrence of a faithful task are read back. -/
theorem description_of_faithful (h : t.Readable) (hf : t.Faithful codec.style) :
    ∃ rest, parseRecurrence (codec.content t) (codec.format t) = (t.recurrence, rest) ∧
      words (strip codec.style rest) = words t.description := by
  obtain ⟨lead, n, hlead, hwords⟩ := hf.copies
  have hstrip := words_strip_lead_of_faithful h hf hwords
  have hmem : Marker.recurrence ∉ spaced lead := by
    intro hmem
    rcases mem_spaced hmem with hspace | ⟨w, hw, hmem⟩
    · exact absurd hspace (by decide)
    · exact hlead w hw hmem
  cases hr : t.recurrence with
  | none =>
      rw [hr] at hwords
      have hwords : words t.description = lead := by
        rw [hwords]
        simp [words]
      -- Without a recurrence there are no copies, so the whole description is lead.
      have hd : Marker.recurrence ∉ t.description := by
        intro hmem
        obtain ⟨w, hw, hmem⟩ := exists_word_of_mem hmem (isBlank_of_endsRule endsRule_recurrence)
        exact hlead w (hwords ▸ hw) hmem
      obtain ⟨hcut, hrest⟩ := cutRecurrence?_content_eq_none codec h hd hr
      refine ⟨codec.content t, parseRecurrence_of_not_mem hcut _, ?_⟩
      rw [hrest, strip_of_tokens_eq_nil h.no_priority (finds_eq_false_iff.mp hf.no_date)
        (finds_eq_false_iff.mp hf.no_tag) (finds_eq_false_iff.mp hf.no_dependency)]
  | some r =>
      rw [hr] at hwords
      obtain ⟨rest, hparse, hrest⟩ := parseRecurrence_content h hmem hr hwords (codec.format t)
      have hrule := hf.rule r hr
      have hwritable := h.recurrence r hr
      rw [(collapse_whenDone_tail_iff hwritable).mpr hrule, finds_whenDone_format h hr hrule,
        if_neg (by simpa using hwritable.rule_ne_nil)] at hparse
      refine ⟨rest, ?_, ?_⟩
      · rw [hparse]
        obtain ⟨rule, fromDone⟩ := r
        cases fromDone with
        | true => simp
        | false => simp [hf.fromDone _ hr rfl]
      · rw [hrest, hstrip, hwords]
        rfl

/-- **A faithful task is read back.** All its fields are the ones that were written. -/
theorem parse_format_of_faithful (h : t.Readable) (hf : t.Faithful codec.style) :
    codec.parse (codec.format t) t.id t.provenance =
      some { codec.asWritten t with sourceText := codec.format t } := by
  obtain ⟨rest, hrec, hrest⟩ := description_of_faithful h hf
  have hdescription := parseDescription_of_words h.collapse_description h.description_ne_nil hrest
  have hdates : parseDates (codec.content t) = (codec.asWritten t).dates :=
    parseDates_content h (finds_eq_false_iff.mp hf.no_date)
  have htags : distinct ((Token.tag codec.style).tokens (codec.content t)) = t.tags := by
    rw [tag_tokens_content h, finds_eq_false_iff.mp hf.no_tag, List.nil_append]
    exact distinct_eq_self (fun name hname => (h.tag name hname).1) h.tags_nodup
  have hdependencies : distinct (Token.dependency.tokens (codec.content t)) = t.dependencies := by
    rw [dependency_tokens_content h, finds_eq_false_iff.mp hf.no_dependency, List.nil_append]
    exact distinct_eq_self (fun name hname => (h.dependency name hname).1) h.dependencies_nodup
  rw [parse_format_eq h, Item.toTask, hrec]
  simp only [hdescription, hdates, htags, hdependencies, parsePriority_content h,
    Status.ofMark_mark]
  rfl

/-- A description without recurrences is read back only if there is nothing to strip from it. -/
theorem words_strip_description (h : t.Readable) (hmem : Marker.recurrence ∉ t.description)
    {line : Text} (hread : collapse (parseDescription codec.style
      (parseRecurrence (codec.content t) line).2) = t.description) :
    words (strip codec.style t.description) = words t.description := by
  have hspaced := spaced_words h.collapse_description h.description_ne_nil
  have hrest : words (strip codec.style (parseRecurrence (codec.content t) line).2) =
      words (strip codec.style t.description) := by
    cases hr : t.recurrence with
    | none =>
        obtain ⟨hcut, hrest⟩ := cutRecurrence?_content_eq_none codec h hmem hr
        rw [parseRecurrence_of_not_mem hcut]
        exact hrest
    | some r =>
        have hlead : Marker.recurrence ∉ spaced (words t.description) := by
          have hspace : Marker.recurrence ≠ ' ' := by decide
          simp [hspaced, hspace, hmem]
        obtain ⟨rest, hparse, hrest⟩ := parseRecurrence_content h hlead hr (n := 0) (by simp) line
        rw [hparse]
        show words (strip codec.style rest) = _
        rw [hrest, hspaced, strip_space_cons, words_cons_of_isBlank isBlank_space]
        simp
  -- A stripped description is read back, or it was lost and the stand-in was read; the stand-in has
  -- words of its own.
  rcases words_of_parseDescription hread with hwords | ⟨hnil, huntitled⟩
  · rw [← hrest, hwords]
  · rw [hrest, huntitled] at hnil
    have huntitled : words (strip codec.style untitled) ≠ [] := by
      cases codec.style <;> decide
    exact absurd hnil huntitled

/-- A description with a recurrence in it is read back only if it ends in copies of the task's. -/
theorem exists_copies_of_mem (h : t.Readable) (hmem : Marker.recurrence ∈ t.description)
    {line : Text} (hread : collapse (parseDescription codec.style
      (parseRecurrence (codec.content t) line).2) = t.description) :
    ∃ lead n, words t.description =
        lead ++ (List.replicate n (words (t.recurrence.elim [] Recurrence.text))).flatten ∧
      Marker.recurrence ∉ spaced lead ∧ words (strip codec.style (spaced lead)) = lead := by
  cases hcut : Token.cutRecurrence? t.description with
  | none => exact absurd hmem (cutRecurrence?_eq_none_iff.mp hcut)
  | some found =>
      obtain ⟨rule, rest⟩ := found
      have hwritable : ∀ datum ∈ codec.data t, datum.Writable := data_writable h
      obtain ⟨rule', rest', hcut', -, hrest⟩ :=
        cutRecurrence?_append_data codec.style hcut hwritable
      have hcontent : Token.cutRecurrence? (codec.content t) =
          some (rule', t.priority.lead ++ rest') := by
        rw [content, cutRecurrence?_append_left (recurrence_not_mem_lead _), hcut']
        rfl
      rw [parseRecurrence_of_cut hcontent] at hread
      have hwords : words t.description = words (strip codec.style rest) ++
          t.recurrence.toList.flatMap (words ·.text) := by
        rcases words_of_parseDescription hread with hwords | ⟨-, huntitled⟩
        · rw [← hwords, words_strip_lead, hrest, filterMap_recurrence?_data]
        · rw [huntitled] at hmem
          exact absurd hmem (by decide)
      cases hr : t.recurrence with
      | none =>
          -- the cut takes the sign away and nothing puts it back
          rw [hr] at hwords
          have hink := ink_eq_of_words_eq
            (hwords.trans (List.append_nil (words (strip codec.style rest))))
          have hlt := ink_cutRecurrence?_lt hcut
          have hle := ink_strip_add_le codec.style rest
          omega
      | some r =>
          have hspaced := spaced_words h.collapse_description h.description_ne_nil
          have hspace : Marker.recurrence ∉ [' '] := by decide
          have hcut : Token.cutRecurrence? (spaced (words t.description)) =
              some (rule, ' ' :: rest) := by
            rw [hspaced]
            show Token.cutRecurrence? ([' '] ++ t.description) = _
            rw [cutRecurrence?_append_left hspace, hcut]
            rfl
          have hone : t.recurrence.toList.flatMap (words ·.text) = words r.text := by
            rw [hr]
            exact List.append_nil _
          refine exists_copies (h.recurrence r hr) (words t.description) hcut ?_
          rw [strip_space_cons, words_cons_of_isBlank isBlank_space, ← hone]
          exact hwords

/-- A description is read back only if it ends in copies of the task's recurrence and nothing is
stripped from what stands before them. -/
theorem exists_copies_of_read (h : t.Readable) {line : Text} (hread : collapse (parseDescription
      codec.style (parseRecurrence (codec.content t) line).2) = t.description) :
    ∃ lead n, words t.description =
        lead ++ (List.replicate n (words (t.recurrence.elim [] Recurrence.text))).flatten ∧
      Marker.recurrence ∉ spaced lead ∧ words (strip codec.style (spaced lead)) = lead := by
  by_cases hmem : Marker.recurrence ∈ t.description
  · exact exists_copies_of_mem h hmem hread
  · -- Without a sign in the description there are no copies, and all of it stands before them.
    have hspaced := spaced_words h.collapse_description h.description_ne_nil
    have hspace : Marker.recurrence ≠ ' ' := by decide
    refine ⟨words t.description, 0, by simp, by simp [hspaced, hspace, hmem], ?_⟩
    rw [hspaced, strip_space_cons, words_cons_of_isBlank isBlank_space]
    exact words_strip_description h hmem hread

/-- The copies hold no token but recurrences, so a description has the tokens of what stands before
them. -/
theorem finds_description {α : Type} {scan : Scanner α} {own : Datum → Option α}
    (h : t.Readable) (hs : scan.Separable) {style : TagStyle} (hread : Datum.ReadBy scan style own)
    (hown : ∀ r, own (.recurrence r) = none) {lead : List Text} {n : Nat}
    (hwords : words t.description =
      lead ++ (List.replicate n (words (t.recurrence.elim [] Recurrence.text))).flatten)
    (htokens : scan.tokens (spaced lead) = []) : scan.finds t.description = false := by
  rw [finds_eq_false_iff, ← tokens_space_cons hs.toLawful, cons_description_eq h style hwords,
    Datum.tokens_append_data hs hread _ (copies_writable h n), htokens, Task.copies,
    List.filterMap_map]
  exact List.filterMap_eq_nil_iff.mpr fun r _ => hown r

/-- A recurrence is read back only if its rule holds no words "when done", and if the description
holds them only for a recurrence that counts from then. -/
theorem finds_whenDone_of_read (h : t.Readable) {lead : List Text} {n : Nat}
    (hlead : Marker.recurrence ∉ spaced lead) {r : Recurrence} (hr : t.recurrence = some r)
    (hwords : words t.description = lead ++ (List.replicate n (words r.text)).flatten)
    (hread : (parseRecurrence (codec.content t) (codec.format t)).1 = t.recurrence) :
    Token.whenDone.finds r.rule = false ∧
      (r.fromDone = false → Token.whenDone.finds t.description = false) := by
  obtain ⟨rest, hparse, -⟩ := parseRecurrence_content h hlead hr hwords (codec.format t)
  rw [hparse, hr] at hread
  simp only at hread
  split at hread
  · exact absurd hread (by simp)
  · have hsame := Option.some.inj hread
    have hrule : Token.whenDone.finds r.rule = false :=
      (collapse_whenDone_tail_iff (h.recurrence r hr)).mp (congrArg Recurrence.rule hsame)
    have hfrom : Token.whenDone.finds (codec.format t) = r.fromDone :=
      congrArg Recurrence.fromDone hsame
    refine ⟨hrule, ?_⟩
    intro hfalse
    rw [finds_whenDone_format h hr hrule, hfalse, Bool.or_false] at hfrom
    exact hfrom

/-- **Only a faithful task is read back.** -/
theorem faithful_of_parse_format (h : t.Readable) {u : Task}
    (hparse : codec.parse (codec.format t) t.id t.provenance = some u)
    (hequiv : u.Equivalent (codec.asWritten t)) : t.Faithful codec.style := by
  have hnormal : u.normal = (codec.asWritten t).normal := hequiv
  have hdescription : collapse u.description = collapse t.description :=
    congrArg Task.description hnormal
  have hrec : u.normal.recurrence = (codec.asWritten t).normal.recurrence := by rw [hnormal]
  change u.recurrence = t.recurrence at hrec
  have hu := Option.some.inj ((parse_format_eq h).symm.trans hparse)
  rw [← hu, Item.toTask_description, h.collapse_description] at hdescription
  rw [← hu, Item.toTask_recurrence] at hrec
  obtain ⟨lead, n, hwords, hlead, hstrip⟩ := exists_copies_of_read h hdescription
  -- Nothing is stripped from what stands before the copies, so there is no token in it.
  have hwordsLead : words (spaced lead) = lead := by
    rw [words_spaced, ← hstrip]
    exact flatMap_words fun _ hw => hw
  obtain ⟨hdate, htag, hdependency⟩ :=
    tokens_eq_nil_of_words_strip (hstrip.trans hwordsLead.symm)
  have hwhenDone : ∀ r, t.recurrence = some r → Token.whenDone.finds r.rule = false ∧
      (r.fromDone = false → Token.whenDone.finds t.description = false) := by
    intro r hr
    have helim : words (t.recurrence.elim [] Recurrence.text) = words r.text := by
      rw [hr]
      rfl
    rw [helim] at hwords
    exact finds_whenDone_of_read h hlead hr hwords hrec
  constructor
  · exact finds_description h Token.date_separable (Datum.readBy_date codec.style)
      (fun _ => rfl) hwords hdate
  · exact finds_description h (Token.tag_separable codec.style) (Datum.readBy_tag codec.style)
      (fun _ => rfl) hwords htag
  · exact finds_description h Token.dependency_separable (Datum.readBy_dependency codec.style)
      (fun _ => rfl) hwords hdependency
  · exact ⟨lead, n, fun w hw hmem => hlead (mem_spaced_of_mem hw hmem), hwords⟩
  · exact fun r hr => (hwhenDone r hr).1
  · exact fun r hr => (hwhenDone r hr).2

/-- The line of a readable task is read as a task that says the same if and only if the task is
faithful. -/
theorem parse_format_iff (h : t.Readable) :
    (∃ u, codec.parse (codec.format t) t.id t.provenance = some u ∧
      u.Equivalent (codec.asWritten t)) ↔ t.Faithful codec.style := by
  constructor
  · rintro ⟨u, hparse, hequiv⟩
    exact faithful_of_parse_format h hparse hequiv
  · intro hf
    exact ⟨_, parse_format_of_faithful h hf, rfl⟩

end Codec

end Checklist
