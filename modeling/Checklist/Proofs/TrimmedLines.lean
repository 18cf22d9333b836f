import Checklist.Proofs.QueryLines

/-!
# Trimmed lines — the lines of a query that is put together again

The editor cuts a query into lines, changes one of them, and puts the lines together. Cut again, the
new query has these lines, but for blank ones and for blanks at the two ends of the query
(`trimmedLines_ofLines`): blanks at the ends of a text make no difference to what its lines hold
(`trimmedLines_splitOn_trim`). Where the first line begins with no blank and the last one ends with
none (`Flush`), nothing is lost but the blank lines (`queryLines_ofLines`), and the lines of every
query are like that (`flush_queryLines`).
-/

namespace Checklist

open Text

namespace Editor

/-! ## Lines as they are read -/

/-- The lines without the blanks at their ends and without the blank ones. -/
def trimmedLines (ls : List Text) : List Text := (ls.map trim).filter (!·.isEmpty)

section Trimmed

variable {ls : List Text}

/-- Lines are trimmed one by one. -/
theorem trimmedLines_append (ls ms : List Text) :
    trimmedLines (ls ++ ms) = trimmedLines ls ++ trimmedLines ms := by
  rw [trimmedLines, List.map_append, List.filter_append, trimmedLines, trimmedLines]

/-- A blank line is left out. -/
theorem trimmedLines_cons_of_blank {l : Text} (h : trim l = []) (ls : List Text) :
    trimmedLines (l :: ls) = trimmedLines ls := by
  rw [trimmedLines, List.map_cons, h, List.filter_cons_of_neg (by simp), trimmedLines]

/-- A line that is not blank is trimmed. -/
theorem trimmedLines_cons_of_filled {l : Text} (h : trim l ≠ []) (ls : List Text) :
    trimmedLines (l :: ls) = trim l :: trimmedLines ls := by
  rw [trimmedLines, List.map_cons, List.filter_cons_of_pos (by simp [h]), trimmedLines]

/-- It makes no difference if the blank lines are left out first. -/
theorem trimmedLines_filter (ls : List Text) :
    trimmedLines (ls.filter isFilled) = trimmedLines ls := by
  induction ls with
  | nil => rfl
  | cons l ls ih =>
      by_cases hl : trim l = []
      · rw [List.filter_cons_of_neg (by simp [isFilled, hl]), trimmedLines_cons_of_blank hl, ih]
      · rw [List.filter_cons_of_pos (isFilled_iff.mpr hl), trimmedLines_cons_of_filled hl,
          trimmedLines_cons_of_filled hl, ih]

/-! ### Blanks at the ends of a text -/

/-- Blanks and line feeds hold no line. -/
theorem trimmedLines_splitOn_of_blank {b : Text} (hb : ∀ c ∈ b, isBlank c = true) :
    trimmedLines (splitOn '\n' b) = [] := by
  refine List.filter_eq_nil_iff.mpr fun t ht => ?_
  obtain ⟨piece, hpiece, rfl⟩ := List.mem_map.mp ht
  have hblank : trim piece = [] := trim_eq_nil_iff.mpr fun c hc =>
    hb c (by rw [← joinWith_splitOn '\n' b]; exact mem_joinWith_of_mem hpiece hc)
  simp [hblank]

/-- Blanks in front of a text change none of its lines. -/
theorem trimmedLines_splitOn_of_blank_append {b : Text} (hb : ∀ c ∈ b, isBlank c = true)
    (s : Text) : trimmedLines (splitOn '\n' (b ++ s)) = trimmedLines (splitOn '\n' s) := by
  induction b with
  | nil => rfl
  | cons c b ih =>
      have hrest := ih fun d hd => hb d (List.mem_cons_of_mem c hd)
      rw [List.cons_append, splitOn]
      split
      · rw [trimmedLines_cons_of_blank (by rfl), hrest]
      · split
        · next hnil => exact absurd hnil (splitOn_ne_nil _ _)
        · next piece pieces hpieces =>
            rw [hpieces] at hrest
            have htrim : trim (c :: piece) = trim piece :=
              trim_of_blank_append (b := [c]) (by simpa using hb c List.mem_cons_self) piece
            rw [← hrest, trimmedLines, List.map_cons, htrim, ← List.map_cons, trimmedLines]

/-- A text has no line feed, or it is a line, a line feed behind it, and a text. -/
theorem newline_induction {P : Text → Prop} (free : ∀ w, '\n' ∉ w → P w)
    (cut : ∀ w s, '\n' ∉ w → P s → P (w ++ '\n' :: s)) (s : Text) : P s := by
  have hfree {w : Text} (hw : ∀ c ∈ w, decide (c = '\n') = false) : '\n' ∉ w := fun hmem =>
    absurd (hw '\n' hmem) (by decide)
  refine cut_induction (fun c => decide (c = '\n')) (fun w hw => free w (hfree hw)) ?_ s
  intro w c s hw hc hs
  obtain rfl := of_decide_eq_true hc
  exact cut w s (hfree hw) hs

/-- Blanks behind a text change none of its lines. -/
theorem trimmedLines_splitOn_append_of_blank {b : Text} (hb : ∀ c ∈ b, isBlank c = true)
    (s : Text) : trimmedLines (splitOn '\n' (s ++ b)) = trimmedLines (splitOn '\n' s) := by
  induction s using newline_induction with
  | cut w s hw ih =>
      rw [List.append_assoc, List.cons_append, splitOn_append, splitOn_append, trimmedLines_append,
        trimmedLines_append, ih]
  | free w hw =>
      have hline (u : Text) (hu : '\n' ∉ u) (hblank : ∀ c ∈ u, isBlank c = true) :
          trimmedLines (splitOn '\n' (w ++ u)) = trimmedLines (splitOn '\n' w) := by
        have hwu : '\n' ∉ w ++ u := by
          rw [List.mem_append, not_or]
          exact ⟨hw, hu⟩
        rw [splitOn_of_not_mem hwu, splitOn_of_not_mem hw, trimmedLines, List.map_singleton,
          trim_append_of_blank hblank, ← List.map_singleton, trimmedLines]
      cases b using newline_induction with
      | free b hfree => exact hline b hfree hb
      | cut u t hu _ =>
          have ht := trimmedLines_splitOn_of_blank (b := t) fun c hc => hb c (by simp [hc])
          rw [← List.append_assoc, splitOn_append, trimmedLines_append, ht, List.append_nil]
          exact hline u hu fun c hc => hb c (by simp [hc])

/-- Trimming a text changes none of its trimmed lines. -/
theorem trimmedLines_splitOn_trim (s : Text) :
    trimmedLines (splitOn '\n' (trim s)) = trimmedLines (splitOn '\n' s) := by
  obtain ⟨b, b', hb, hb', hs⟩ := exists_trim_eq s
  conv_rhs =>
    rw [hs, trimmedLines_splitOn_append_of_blank hb', trimmedLines_splitOn_of_blank_append hb]

end Trimmed

/-! ## Lines put together -/

/-- Whether the text can be a line of a query as it is edited. -/
def IsLine (l : Text) : Prop := ∀ c ∈ l, isInvisible c = false ∧ c ≠ '\n'

/-- The lines of a query are lines. -/
theorem isLine_of_mem_queryLines {q l : Text} (h : l ∈ queryLines q) : IsLine l := by
  intro c hc
  rw [queryLines] at h
  split at h
  · exact absurd h List.not_mem_nil
  · refine ⟨isInvisible_of_mem_normalizeQuery (q := q) ?_, ?_⟩
    · rw [← joinWith_splitOn '\n' (normalizeQuery q)]
      exact mem_joinWith_of_mem h hc
    · rintro rfl
      exact sep_not_mem_of_mem_splitOn h hc

/-- A line is one when it is trimmed. -/
theorem isLine_trim {v : Text} (hv : IsLine v) : IsLine (trim v) :=
  fun c hc => hv c (mem_of_mem_trim hc)

/-- The lines of a query are those of its normal form, as far as they are not blank. -/
theorem trimmedLines_queryLines (q : Text) :
    trimmedLines (queryLines q) = trimmedLines (splitOn '\n' (normalizeQuery q)) := by
  rw [queryLines]
  split
  · next hempty =>
      rw [List.isEmpty_iff.mp hempty]
      rfl
  · rfl

section OfLines

variable {ls : List Text}

/-- It makes no difference to a query if the blank lines are left out first. -/
theorem ofLines_filter (ls : List Text) : ofLines (ls.filter isFilled) = ofLines ls := by
  show joinWith ['\n'] ((ls.filter isFilled).filter isFilled) = joinWith ['\n'] (ls.filter isFilled)
  rw [List.filter_filter]
  simp only [Bool.and_self]

/-- Lines that are put together are found again, but for blank ones and blanks at the ends. -/
theorem trimmedLines_ofLines (h : ∀ l ∈ ls, IsLine l) :
    trimmedLines (queryLines (ofLines ls)) = trimmedLines ls := by
  have hvisible : ∀ l ∈ ls, ∀ c ∈ l, isInvisible c = false := fun l hl c hc => (h l hl c hc).1
  have hfeed : ∀ l ∈ ls.filter isFilled, '\n' ∉ l := fun l hl hmem =>
    (h l (List.mem_of_mem_filter hl) '\n' hmem).2 rfl
  rw [trimmedLines_queryLines, normalizeQuery_of_visible (visible_ofLines hvisible),
    trimmedLines_splitOn_trim, ← trimmedLines_filter ls]
  show trimmedLines (splitOn '\n' (joinWith ['\n'] (ls.filter isFilled))) = _
  by_cases hnil : ls.filter isFilled = []
  · rw [hnil]
    rfl
  · rw [splitOn_joinWith hnil hfeed]

/-- Whether no blank stands at the start of the first line or at the end of the last. -/
structure Flush (ls : List Text) : Prop where
  head : ∀ l ∈ ls.head?, ∀ c ∈ l.head?, isBlank c = false
  last : ∀ l ∈ ls.getLast?, ∀ c ∈ l.getLast?, isBlank c = false

/-- A line that is not blank is not empty. -/
theorem ne_nil_of_isFilled {l : Text} (h : isFilled l = true) : l ≠ [] := by
  rintro rfl
  exact absurd h (by decide)

/-- No lines are flush. -/
theorem flush_nil : Flush [] where
  head := by simp
  last := by simp

/-- A single line is flush when it is trimmed. -/
theorem flush_singleton {l : Text} (h : trim l = l) : Flush [l] where
  head := by
    intro m hm c hc
    obtain rfl := Option.some.inj hm
    exact isBlank_of_head_trim (s := l) (by rw [h]; exact hc)
  last := by
    intro m hm c hc
    obtain rfl := Option.some.inj hm
    exact isBlank_of_getLast_trim (s := l) (by rw [h]; exact hc)

/-- Flush lines that are put together have no blanks at their ends. -/
theorem trim_ofLines (h : Flush (ls.filter isFilled)) : trim (ofLines ls) = ofLines ls := by
  have hne : ∀ l ∈ ls.filter isFilled, l ≠ [] := fun l hl =>
    ne_nil_of_isFilled (List.mem_filter.mp hl).2
  show trim (joinWith ['\n'] (ls.filter isFilled)) = joinWith ['\n'] (ls.filter isFilled)
  refine trim_eq_self ?_ ?_
  · intro c hc
    rw [head?_joinWith hne] at hc
    obtain ⟨l, hl, hc⟩ := Option.bind_eq_some_iff.mp hc
    exact h.head l hl c hc
  · intro c hc
    rw [getLast?_joinWith hne] at hc
    obtain ⟨l, hl, hc⟩ := Option.bind_eq_some_iff.mp hc
    exact h.last l hl c hc

/-- Flush lines that are put together are found again as they are. -/
theorem queryLines_ofLines (h : ∀ l ∈ ls, IsLine l) (hflush : Flush (ls.filter isFilled))
    (hne : ls.filter isFilled ≠ []) : queryLines (ofLines ls) = ls.filter isFilled := by
  have hvisible : ∀ l ∈ ls, ∀ c ∈ l, isInvisible c = false := fun l hl c hc => (h l hl c hc).1
  have hfeed : ∀ l ∈ ls.filter isFilled, '\n' ∉ l := fun l hl hmem =>
    (h l (List.mem_of_mem_filter hl) '\n' hmem).2 rfl
  have hsplit : splitOn '\n' (ofLines ls) = ls.filter isFilled := splitOn_joinWith hne hfeed
  rw [queryLines, if_neg, normalizeQuery_of_visible (visible_ofLines hvisible), trim_ofLines hflush,
    hsplit]
  intro hempty
  rw [List.isEmpty_iff.mp hempty] at hsplit
  have hmem : [] ∈ ls.filter isFilled := by
    rw [← hsplit]
    exact List.mem_singleton_self []
  exact ne_nil_of_isFilled (List.mem_filter.mp hmem).2 rfl

end OfLines

/-- The first line of a trimmed text is empty only when the text is, and begins with no blank. -/
theorem head_splitOn_of_trimmed {t : Text} (ht : trim t = t) {l : Text} {rest : List Text}
    (hsplit : splitOn '\n' t = l :: rest) :
    l = [] ∧ rest = [] ∨ ∃ c s, l = c :: s ∧ isBlank c = false := by
  have hjoin : joinWith ['\n'] (l :: rest) = t := by rw [← hsplit, joinWith_splitOn]
  have hhead (c : Char) (hc : t.head? = some c) : isBlank c = false :=
    isBlank_of_head_trim (s := t) (by rw [ht, hc])
  cases l with
  | cons c s =>
      refine .inr ⟨c, s, rfl, hhead c ?_⟩
      rw [← hjoin]
      cases rest <;> rfl
  | nil =>
      cases rest with
      | nil => exact .inl ⟨rfl, rfl⟩
      | cons m rest =>
          refine absurd (hhead '\n' ?_) (by decide)
          rw [← hjoin]
          rfl

/-- The last line of a trimmed text is empty only when the text is, and ends with no blank. -/
theorem last_splitOn_of_trimmed {t : Text} (ht : trim t = t) {l : Text} {init : List Text}
    (hsplit : splitOn '\n' t = init ++ [l]) :
    l = [] ∧ init = [] ∨ ∃ s c, l = s ++ [c] ∧ isBlank c = false := by
  have hjoin : joinWith ['\n'] (init ++ [l]) = t := by rw [← hsplit, joinWith_splitOn]
  have hlast (c : Char) (hc : t.getLast? = some c) : isBlank c = false :=
    isBlank_of_getLast_trim (s := t) (by rw [ht, hc])
  have hbehind (hinit : init ≠ []) : t = joinWith ['\n'] init ++ ['\n'] ++ l := by
    rw [← hjoin, joinWith_append hinit (List.cons_ne_nil l [])]
    rfl
  rcases l.eq_nil_or_concat' with rfl | ⟨s, c, rfl⟩
  · by_cases hinit : init = []
    · exact .inl ⟨rfl, hinit⟩
    · refine absurd (hlast '\n' ?_) (by decide)
      rw [hbehind hinit, List.append_nil, List.getLast?_concat]
  · refine .inr ⟨s, c, rfl, hlast c ?_⟩
    by_cases hinit : init = []
    · subst hinit
      rw [← hjoin]
      exact List.getLast?_concat
    · rw [hbehind hinit, ← List.append_assoc, List.getLast?_concat]

/-- The lines of a query are flush. -/
theorem flush_queryLines (q : Text) : Flush ((queryLines q).filter isFilled) := by
  rw [queryLines]
  split
  · exact flush_nil
  · have htrim : trim (normalizeQuery q) = normalizeQuery q := trim_trim _
    generalize normalizeQuery q = t at htrim
    -- A normal form is trimmed, so it is empty or has something at each end.
    constructor
    · cases hsplit : splitOn '\n' t with
      | nil => exact absurd hsplit (splitOn_ne_nil _ _)
      | cons l rest =>
          rcases head_splitOn_of_trimmed htrim hsplit with ⟨rfl, rfl⟩ | ⟨c, s, rfl, hc⟩
          · exact flush_nil.head
          · rw [List.filter_cons_of_pos (isFilled_of_mem List.mem_cons_self hc)]
            intro l hl d hd
            obtain rfl := Option.some.inj hl
            obtain rfl := Option.some.inj hd
            exact hc
    · rcases (splitOn '\n' t).eq_nil_or_concat' with hnil | ⟨init, l, hsplit⟩
      · exact absurd hnil (splitOn_ne_nil _ _)
      · rw [hsplit]
        rcases last_splitOn_of_trimmed htrim hsplit with ⟨rfl, rfl⟩ | ⟨s, c, rfl, hc⟩
        · exact flush_nil.last
        · have hfilled : isFilled (s ++ [c]) = true := isFilled_of_mem (by simp) hc
          rw [List.filter_append, List.filter_cons_of_pos hfilled, List.filter_nil,
            List.getLast?_concat]
          intro l hl d hd
          obtain rfl := Option.some.inj hl
          rw [List.getLast?_concat] at hd
          obtain rfl := Option.some.inj hd
          exact hc

end Editor

end Checklist
