import Checklist.Proofs.Data

/-!
# Recurring tasks — where the first recurrence of a content is cut out

A recurrence is cut out at its sign, and its rule runs up to the next sign. So a text before the
sign does not matter (`cutRecurrence?_append_left`), a recurrence that is written is cut out whole
(`cutRecurrence?_text`), and what is written behind a text that holds one stays behind it
(`cutRecurrence?_append_data`): up to a space at the end, rule and rest are those of the text alone.
-/

namespace Checklist

open Text Scanner

theorem cutRecurrence?_eq_none_iff {s : Text} :
    Token.cutRecurrence? s = none ↔ Marker.recurrence ∉ s := by
  rw [Token.cutRecurrence?, Option.map_eq_none_iff, cutAt?_eq_none_iff]

/-- A recurrence at the start of a text has its rule up to the next sign. -/
theorem cutRecurrence?_cons (s : Text) :
    Token.cutRecurrence? (Marker.recurrence :: s) =
      some ((Token.skipGap s).takeWhile Token.isRuleChar,
        ' ' :: (Token.skipGap s).dropWhile Token.isRuleChar) := by
  have hcut : cutAt? Marker.recurrence (Marker.recurrence :: s) = some ([], s) :=
    cutAt?_eq_some_iff.mpr ⟨rfl, List.not_mem_nil⟩
  rw [Token.cutRecurrence?, hcut]
  rfl

/-- Whatever holds no sign of a recurrence stays before the cut. -/
theorem cutRecurrence?_append_left {u : Text} (hu : Marker.recurrence ∉ u) (s : Text) :
    Token.cutRecurrence? (u ++ s) =
      (Token.cutRecurrence? s).map fun (rule, rest) => (rule, u ++ rest) := by
  cases hcut : cutAt? Marker.recurrence s with
  | none =>
      have hmem : Marker.recurrence ∉ u ++ s := by
        simp [hu, cutAt?_eq_none_iff.mp hcut]
      rw [cutRecurrence?_eq_none_iff.mpr hmem,
        cutRecurrence?_eq_none_iff.mpr (cutAt?_eq_none_iff.mp hcut)]
      rfl
  | some cut =>
      obtain ⟨before, after⟩ := cut
      obtain ⟨rfl, hbefore⟩ := cutAt?_eq_some_iff.mp hcut
      have hcut' : cutAt? Marker.recurrence (u ++ (before ++ Marker.recurrence :: after)) =
          some (u ++ before, after) := cutAt?_eq_some_iff.mpr ⟨by simp, by simp [hu, hbefore]⟩
      rw [Token.cutRecurrence?, Token.cutRecurrence?, hcut, hcut']
      simp

/-- The rule of a recurrence and the words behind it, as they are written. -/
def Recurrence.tail (r : Recurrence) : Text :=
  r.rule ++ if r.fromDone then " when done".toList else []

theorem Recurrence.text_eq (r : Recurrence) : r.text = Marker.recurrence :: ' ' :: r.tail := rfl

/-- A recurrence at the end of a text is cut out whole. -/
theorem cutRecurrence?_text {r : Recurrence} (hr : r.Writable) :
    Token.cutRecurrence? r.text = some (r.tail, [' ']) := by
  have hgap : Token.skipGap (' ' :: r.tail) = r.tail := by
    have hhead : ∀ c, r.rule.head? = some c → isBlank c = false := fun c hc =>
      isBlank_of_head_collapse (hr.collapse_rule.symm ▸ hc)
    cases hrule : r.rule with
    | nil => exact absurd hrule hr.rule_ne_nil
    | cons c rule =>
        have hc : ¬isBlank c = true := by simp [hhead c (by rw [hrule]; rfl)]
        rw [Recurrence.tail, hrule, List.cons_append]
        generalize (rule ++ _ : Text) = s
        show List.dropWhile isBlank (' ' :: c :: s) = c :: s
        rw [List.dropWhile_cons, if_pos isBlank_space, List.dropWhile_cons, if_neg hc]
  -- All of the tail is rule, so nothing is left behind the cut but its space.
  have hchar : ∀ c ∈ r.tail, Token.isRuleChar c = true := by
    have hwords : ∀ c ∈ " when done".toList, Token.isRuleChar c = true :=
      forall_mem_of_all (by decide)
    intro c hc
    rcases List.mem_append.mp hc with hc | hc
    · have hnewline : c ≠ '\n' := by
        rintro rfl
        exact absurd (eq_space_of_mem_collapse (hr.collapse_rule.symm ▸ hc) (by decide)) (by decide)
      rw [Token.isRuleChar, hr.unsigned c hc]
      simpa using hnewline
    · split at hc
      · exact hwords c hc
      · exact absurd hc (by simp)
  rw [Recurrence.text_eq, cutRecurrence?_cons, hgap, List.takeWhile_eq_self_iff.mpr hchar,
    List.dropWhile_eq_nil_iff.mpr hchar]

/-- What begins with a sign stays behind the cut; the rule may take the space before it. -/
theorem cutRecurrence?_append_right {s rule rest : Text}
    (h : Token.cutRecurrence? s = some (rule, rest))
    {c : Char} (hc : endsRule c = true) (u : Text) :
    ∃ rule' rest', Token.cutRecurrence? (s ++ ' ' :: c :: u) = some (rule', rest') ∧
      (rule' = rule ∨ rule' = rule ++ [' ']) ∧
      (rest' = rest ++ ' ' :: c :: u ∨
        ∃ before, rest = before ++ [' '] ∧ rest' = before ++ ' ' :: c :: u) := by
  obtain ⟨⟨before, after⟩, hcut, heq⟩ := Option.map_eq_some_iff.mp h
  obtain ⟨rfl, rfl⟩ := Prod.mk.inj heq
  obtain ⟨rfl, hbefore⟩ := cutAt?_eq_some_iff.mp hcut
  have hcut' : cutAt? Marker.recurrence (before ++ Marker.recurrence :: after ++ ' ' :: c :: u) =
      some (before, after ++ ' ' :: c :: u) := cutAt?_eq_some_iff.mpr ⟨by simp, hbefore⟩
  have hruleChar : Token.isRuleChar c = false := by simp [Token.isRuleChar, hc]
  have hspace : Token.isRuleChar ' ' = true := by decide
  have htrim : trimStart (c :: u) = c :: u := by simp [trimStart, isBlank_of_endsRule hc]
  rw [Token.cutRecurrence?, hcut']
  simp only [Option.map_some, Token.skipGap_append_space, htrim]
  by_cases hgap : Token.skipGap after = []
  · -- nothing stands behind the sign, so the rule is empty and the gap runs into the next sign
    refine ⟨[], before ++ ' ' :: c :: u, ?_, ?_, ?_⟩
    · simp [if_pos hgap, hruleChar]
    · exact .inl (by simp [hgap])
    · exact .inr ⟨before, by simp [hgap], rfl⟩
  · rw [if_neg hgap]
    cases hdrop : (Token.skipGap after).dropWhile Token.isRuleChar with
    | nil =>
        -- the rule runs to the end of the text and takes the space behind it
        have hall : ∀ d ∈ Token.skipGap after, Token.isRuleChar d = true :=
          List.dropWhile_eq_nil_iff.mp hdrop
        refine ⟨Token.skipGap after ++ [' '], before ++ ' ' :: c :: u, ?_, ?_, ?_⟩
        · rw [List.takeWhile_append_of_pos hall, List.dropWhile_append_of_pos hall]
          simp [hspace, hruleChar]
        · exact .inr (by rw [List.takeWhile_eq_self_iff.mpr hall])
        · exact .inr ⟨before, rfl, rfl⟩
    | cons d v =>
        -- another sign ended the rule before
        have hlen : ((Token.skipGap after).takeWhile Token.isRuleChar).length ≠
            (Token.skipGap after).length := by
          have hsplit := congrArg List.length (List.takeWhile_append_dropWhile
            (p := Token.isRuleChar) (l := Token.skipGap after))
          rw [hdrop, List.length_append, List.length_cons] at hsplit
          omega
        refine ⟨_, _, rfl, .inl ?_, .inl ?_⟩
        · rw [List.takeWhile_append, if_neg hlen]
        · rw [List.dropWhile_append, hdrop]
          simp

/-- A recurrence before texts of which the first begins with a sign is cut out, and leaves a space
in its place or nothing. -/
theorem cutRecurrence?_text_spaced {r : Recurrence} (hr : r.Writable) {texts : List Text}
    (h : ∀ s, texts.head? = some s → ∃ c u, s = c :: u ∧ endsRule c = true) :
    ∃ rule blank, (blank = [] ∨ blank = [' ']) ∧ (rule = r.tail ∨ rule = r.tail ++ [' ']) ∧
      Token.cutRecurrence? (r.text ++ spaced texts) = some (rule, blank ++ spaced texts) := by
  have hwhole := cutRecurrence?_text hr
  cases texts with
  | nil =>
      exact ⟨r.tail, [' '], .inr rfl, .inl rfl, by rw [spaced_nil, List.append_nil, hwhole]; rfl⟩
  | cons s texts =>
      obtain ⟨c, u, rfl, hc⟩ := h s rfl
      obtain ⟨rule, rest, hcut, hrule, hrest⟩ :=
        cutRecurrence?_append_right hwhole hc (u ++ spaced texts)
      rw [spaced_cons, List.cons_append, hcut]
      rcases hrest with rfl | ⟨before, hbefore, rfl⟩
      · exact ⟨rule, [' '], .inr rfl, hrule, rfl⟩
      · have hnil : before = [] := by
          have := congrArg List.length hbefore
          rw [List.length_append] at this
          exact List.length_eq_zero_iff.mp (by simpa using this.symm)
        rw [hnil]
        exact ⟨rule, [], .inl rfl, hrule, rfl⟩

/-- A space at its end does not change the words of a rule. -/
theorem words_whenDone_append_space (rule : Text) :
    words (Token.whenDone.blankOut (rule ++ [' '])) = words (Token.whenDone.blankOut rule) := by
  have hstop : Token.whenDone.StopsAt [' '] :=
    Token.whenDone_separable.stops (.of_blank (by simp))
  rw [blankOut_append_space Token.whenDone_separable.toLawful hstop,
    words_append_blank isBlank_space]
  exact List.append_nil _

/-! ## Rows of data behind a recurrence -/

section Data

variable {style : TagStyle} {data : List Datum}

theorem words_strip_append_space (style : TagStyle) (s : Text) :
    words (strip style (s ++ [' '])) = words (strip style s) := by
  rw [strip_append_space, words_append_blank isBlank_space]
  exact List.append_nil _

/-- Data stay behind the cut, and a space at its end does not change the rule. -/
theorem cutRecurrence?_append_data (style : TagStyle) {s rule rest : Text}
    (h : Token.cutRecurrence? s = some (rule, rest)) (hdata : ∀ datum ∈ data, datum.Writable) :
    ∃ rule' rest', Token.cutRecurrence? (s ++ spaced (data.map (Datum.text style))) =
        some (rule', rest') ∧
      words (Token.whenDone.blankOut rule') = words (Token.whenDone.blankOut rule) ∧
      words (strip style rest') = words (strip style rest) ++
        (data.filterMap Datum.recurrence?).flatMap (words ·.text) := by
  cases data with
  | nil => exact ⟨rule, rest, by simpa using h, rfl, (List.append_nil _).symm⟩
  | cons datum data =>
      obtain ⟨u, hu⟩ := datum.exists_text_eq style
      have hspaced : spaced ((datum :: data).map (Datum.text style)) =
          ' ' :: datum.sign :: (u ++ spaced (data.map (Datum.text style))) := by
        rw [List.map_cons, spaced_cons, hu]
        rfl
      -- The sign of the first datum ends the rule, with or without the space before it.
      obtain ⟨rule', rest', hcut, hrule, hrest⟩ :=
        cutRecurrence?_append_right h datum.endsRule_sign
          (u ++ spaced (data.map (Datum.text style)))
      rw [← hspaced] at hcut hrest
      refine ⟨rule', rest', hcut, ?_, ?_⟩
      · rcases hrule with rfl | rfl
        · rfl
        · exact words_whenDone_append_space rule
      · rcases hrest with rfl | ⟨before, rfl, rfl⟩
        · exact words_strip_append_data rest hdata
        · rw [words_strip_append_data before hdata, words_strip_append_space]

/-- The first recurrence of a row is cut out; the others are left to the description. -/
theorem cutRecurrence?_data (style : TagStyle) {s : Text} (hs : Marker.recurrence ∉ s)
    (hdata : ∀ datum ∈ data, datum.Writable) {r : Recurrence} {rs : List Recurrence}
    (hrec : data.filterMap Datum.recurrence? = r :: rs) :
    ∃ rule rest, Token.cutRecurrence? (s ++ spaced (data.map (Datum.text style))) =
        some (rule, rest) ∧
      words (Token.whenDone.blankOut rule) = words (Token.whenDone.blankOut r.tail) ∧
      words (strip style rest) = words (strip style s) ++ rs.flatMap (words ·.text) := by
  induction data generalizing s with
  | nil => exact absurd hrec (by simp)
  | cons datum data ih =>
      have hdata' : ∀ d ∈ data, d.Writable := fun d hd => hdata d (by simp [hd])
      have hdatum : datum.Writable := hdata datum (by simp)
      rw [List.map_cons, spaced_cons, ← List.cons_append, ← List.append_assoc]
      cases hown : datum.recurrence? with
      | none =>
          -- The datum goes to the text before the first recurrence.
          rw [List.filterMap_cons, hown] at hrec
          have hmem : Marker.recurrence ∉ s ++ ' ' :: datum.text style := by
            have htext : Marker.recurrence ∉ datum.text style :=
              Datum.recurrence_not_mem_text hdatum hown
            have hspace : Marker.recurrence ≠ ' ' := by decide
            simp [hs, htext, hspace]
          obtain ⟨rule, rest, hcut, hrule, hrest⟩ := ih hmem hdata' hrec
          refine ⟨rule, rest, hcut, hrule, ?_⟩
          have hone : words (strip style (s ++ spaced ([datum].map (Datum.text style)))) = _ :=
            words_strip_append_data s (by simpa using hdatum)
          rw [hrest]
          refine congrArg (· ++ _) ?_
          simpa [hown] using hone
      | some x =>
          -- The datum is the recurrence that is cut out, and the rest of the row stays behind it.
          rw [List.filterMap_cons, hown] at hrec
          obtain ⟨rfl, rfl⟩ := List.cons.inj hrec
          cases datum with
          | recurrence r =>
              obtain rfl := Option.some.inj hown
              have hmem : Marker.recurrence ∉ s ++ [' '] := by
                have hspace : Marker.recurrence ≠ ' ' := by decide
                simp [hs, hspace]
              have hcut : Token.cutRecurrence? (s ++ ' ' :: r.text) =
                  some (r.tail, s ++ [' '] ++ [' ']) := by
                have := cutRecurrence?_append_left hmem r.text
                rw [cutRecurrence?_text hdatum] at this
                simpa using this
              obtain ⟨rule, rest, hcut', hrule, hrest⟩ :=
                cutRecurrence?_append_data style hcut hdata'
              refine ⟨rule, rest, hcut', hrule, ?_⟩
              rw [hrest, words_strip_append_space, words_strip_append_space]
          | date kind gap written => exact absurd hown (by simp [Datum.recurrence?])
          | tag name => exact absurd hown (by simp [Datum.recurrence?])
          | dependency name => exact absurd hown (by simp [Datum.recurrence?])

/-- A row without recurrences holds no sign of one. -/
theorem recurrence_not_mem_data {s : Text} (hs : Marker.recurrence ∉ s)
    (hdata : ∀ datum ∈ data, datum.Writable) (hrec : data.filterMap Datum.recurrence? = []) :
    Marker.recurrence ∉ s ++ spaced (data.map (Datum.text style)) := by
  intro hmem
  rcases List.mem_append.mp hmem with hmem | hmem
  · exact hs hmem
  · rcases mem_spaced hmem with hspace | ⟨part, hpart, hmem⟩
    · exact absurd hspace (by decide)
    · obtain ⟨datum, hdatum, rfl⟩ := List.mem_map.mp hpart
      have hnone : datum.recurrence? = none := List.filterMap_eq_nil_iff.mp hrec datum hdatum
      exact Datum.recurrence_not_mem_text (hdata datum hdatum) hnone hmem

end Data

end Checklist
