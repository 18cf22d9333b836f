import Mathlib.Data.List.Basic
import Checklist.Proofs.Characters
import Checklist.Proofs.LineCuts
import Checklist.Proofs.Trimming
import Checklist.Query.Editor

/-!
# Query lines — one part on each line

A query of several lines has its lines as parts, trimmed and without the blank ones (`lineParts`).
Any boundary cuts the parts of a text in two (`lineParts_append_boundary`), whatever characters end
the other lines, so blanks at the ends of a text make no difference (`lineParts_trim`) and the parts
of lines that are joined are the parts of the lines (`lineParts_joinWith`). With that the parser and
the editor see the same: the parts of a query are those of the lines that are edited
(`lineParts_normalizeQuery`), and lines that are put together again have their parts
(`lineParts_ofLines`).
-/

namespace Checklist

open Text

/-! ## Parts of lines -/

/-- The bodies of the lines, trimmed, without the blank ones. -/
def bodyParts (ls : List Line) : List Text :=
  (ls.map fun line => trim line.body).filter (!·.isEmpty)

/-- The parts of a text that is read line by line. -/
def lineParts (s : Text) : List Text := bodyParts (lines s)

/-- The parts of lines are found line by line. -/
theorem bodyParts_cons (line : Line) (ls : List Line) :
    bodyParts (line :: ls) = bodyParts [line] ++ bodyParts ls := by
  simp only [bodyParts, List.map_cons, List.map_nil]
  rw [← List.filter_append]
  rfl

/-- A blank line has no part. -/
theorem bodyParts_of_blank {line : Line} (h : ∀ c ∈ line.body, isBlank c = true)
    (ls : List Line) : bodyParts (line :: ls) = bodyParts ls := by
  rw [bodyParts_cons]
  simp [bodyParts, trim_eq_nil_iff.mpr h]

/-- A text on one line is one part, or none when it is blank. -/
theorem lineParts_of_not_boundary {w : Text} (h : ∀ c ∈ w, isBoundary c = false) :
    lineParts w = [trim w].filter (!·.isEmpty) := by
  cases w with
  | nil => rfl
  | cons c w =>
      rw [lineParts, lines_of_not_boundary (List.cons_ne_nil c w) h]
      rfl

/-- A carriage return ends a line by itself when no line feed is behind it. -/
theorem lines_return_cons {d : Char} (hd : d ≠ '\n') (s : Text) :
    lines ('\r' :: d :: s) = ⟨[], ['\r']⟩ :: lines (d :: s) := by
  generalize hall : '\r' :: d :: s = all
  fun_cases lines all with
  | case1 => exact absurd hall (List.cons_ne_nil _ _)
  | case2 t => exact absurd (List.cons.inj (List.cons.inj hall).2).1 hd
  | case3 c t _ hc =>
      obtain ⟨rfl, rfl⟩ := List.cons.inj hall
      rfl
  | case4 c t _ hc hnil =>
      obtain ⟨rfl, rfl⟩ := List.cons.inj hall
      exact absurd (by decide) hc
  | case5 c t _ hc first rest hfirst =>
      obtain ⟨rfl, rfl⟩ := List.cons.inj hall
      exact absurd (by decide) hc

/-- A boundary ends an empty line. -/
theorem exists_lines_cons_of_boundary {c : Char} (hc : isBoundary c = true) (s : Text) :
    ∃ ending rest, lines (c :: s) = ⟨[], ending⟩ :: rest ∧ bodyParts rest = lineParts s := by
  by_cases hreturn : c = '\r'
  · subst hreturn
    rcases s with _ | ⟨d, s⟩
    · exact ⟨['\r'], [], rfl, rfl⟩
    · by_cases hd : d = '\n'
      · subst hd
        refine ⟨['\r', '\n'], lines s, rfl, ?_⟩
        rw [lineParts, lines_cons_of_boundary (by decide) (by decide)]
        exact (bodyParts_of_blank (by simp) _).symm
      · exact ⟨['\r'], lines (d :: s), lines_return_cons hd s, rfl⟩
  · exact ⟨[c], lines s, lines_cons_of_boundary hc hreturn s, rfl⟩

/-- A blank in front of a text makes no part of its own. -/
theorem lineParts_cons_of_isBlank {c : Char} (hc : isBlank c = true) (s : Text) :
    lineParts (c :: s) = lineParts s := by
  cases hbound : isBoundary c with
  | true =>
      obtain ⟨ending, rest, hlines, hrest⟩ := exists_lines_cons_of_boundary hbound s
      rw [lineParts, hlines, bodyParts_of_blank (by simp), hrest]
  | false =>
      rw [lineParts, lines_cons_of_not_boundary hbound, lineParts]
      cases lines s with
      | nil => exact bodyParts_of_blank (by simpa using hc) []
      | cons line rest =>
          have htrim : trim ([c] ++ line.body) = trim line.body :=
            trim_of_blank_append (by simpa using hc) line.body
          simp only [prependToFirst, bodyParts, List.map_cons, htrim]

/-! ## Cutting at a boundary -/

/-- The parts in front of a line break and behind it are found apart. -/
theorem lineParts_line_append {w : Text} (hw : ∀ d ∈ w, isBoundary d = false) {c : Char}
    (hc : isBoundary c = true) (s : Text) :
    lineParts (w ++ c :: s) = lineParts w ++ lineParts s := by
  cases w with
  | nil => exact lineParts_cons_of_isBlank (isBlank_of_isBoundary hc) s
  | cons d w =>
      obtain ⟨ending, rest, hlines, hrest⟩ := exists_lines_cons_of_boundary hc s
      rw [lineParts, lines_append (List.cons_ne_nil d w) hw, hlines, prependToFirst,
        bodyParts_cons, hrest, lineParts_of_not_boundary hw, List.append_nil]
      rfl

/-- The parts of a text are cut in two at any boundary. -/
theorem lineParts_append_boundary {c : Char} (hc : isBoundary c = true) (s t : Text) :
    lineParts (s ++ c :: t) = lineParts s ++ lineParts t := by
  induction s using boundary_induction with
  | free w hw => exact lineParts_line_append hw hc t
  | cut w d s hw hd ih =>
      rw [List.append_assoc, List.cons_append, lineParts_line_append hw hd, ih,
        lineParts_line_append hw hd, List.append_assoc]

/-- The parts of lines that are joined are the parts of the lines. -/
theorem lineParts_joinWith (ls : List Text) :
    lineParts (joinWith ['\n'] ls) = ls.flatMap lineParts := by
  induction ls with
  | nil => rfl
  | cons l ls ih =>
      cases ls with
      | nil => simp [joinWith]
      | cons m ls =>
          rw [joinWith_cons (List.cons_ne_nil m ls), List.append_assoc, List.singleton_append,
            lineParts_append_boundary (by decide), ih]
          rfl

/-- Blanks in front of a text change none of its parts. -/
theorem lineParts_of_blank_append {b : Text} (hb : ∀ c ∈ b, isBlank c = true) (s : Text) :
    lineParts (b ++ s) = lineParts s := by
  induction b with
  | nil => rfl
  | cons c b ih =>
      rw [List.cons_append, lineParts_cons_of_isBlank (hb c (by simp)),
        ih fun d hd => hb d (List.mem_cons_of_mem c hd)]

/-- A blank text has no parts. -/
theorem lineParts_of_blank {b : Text} (hb : ∀ c ∈ b, isBlank c = true) : lineParts b = [] := by
  rw [← List.append_nil b, lineParts_of_blank_append hb]
  rfl

/-- Blanks behind a text go to its last line or to lines of their own. -/
theorem lineParts_append_of_blank {b : Text} (hb : ∀ c ∈ b, isBlank c = true) (s : Text) :
    lineParts (s ++ b) = lineParts s := by
  have hline (w u : Text) (hw : ∀ c ∈ w, isBoundary c = false) (hu : ∀ c ∈ u, isBoundary c = false)
      (hblank : ∀ c ∈ u, isBlank c = true) : lineParts (w ++ u) = lineParts w := by
    have hwu : ∀ c ∈ w ++ u, isBoundary c = false := fun c hc =>
      (List.mem_append.mp hc).elim (hw c) (hu c)
    rw [lineParts_of_not_boundary hwu, lineParts_of_not_boundary hw, trim_append_of_blank hblank]
  induction s using boundary_induction with
  | cut w c s hw hc ih =>
      rw [List.append_assoc, List.cons_append, lineParts_line_append hw hc, ih,
        lineParts_line_append hw hc]
  | free w hw =>
      cases b using boundary_induction with
      | free b hfree => exact hline w b hw hfree hb
      | cut u c t hu hc _ =>
          have ht : lineParts t = [] := lineParts_of_blank fun d hd => hb d (by simp [hd])
          rw [← List.append_assoc, lineParts_append_boundary hc, ht, List.append_nil]
          exact hline w u hw hu fun d hd => hb d (by simp [hd])

/-- Blanks at the ends of a text make no difference to its parts. -/
@[simp] theorem lineParts_trim (s : Text) : lineParts (trim s) = lineParts s := by
  obtain ⟨b, b', hb, hb', hs⟩ := exists_trim_eq s
  conv_rhs => rw [hs, lineParts_append_of_blank hb', lineParts_of_blank_append hb]

/-! ## Parts of a query -/

/-- A query with a line feed is read line by line. -/
theorem splitQuery_of_newline {q : Text} (h : '\n' ∈ normalizeQuery q) :
    splitQuery q = dropHeading (lineParts (normalizeQuery q)) := by
  have hcontains : (normalizeQuery q).contains '\n' = true := List.contains_iff_mem.mpr h
  simp only [splitQuery, hcontains, if_true]
  rfl

/-- A query without a line feed is read word by word. -/
theorem splitQuery_of_not_newline {q : Text} (h : '\n' ∉ normalizeQuery q) :
    splitQuery q = dropHeading (partsOfWords (words (normalizeQuery q))) := by
  have hcontains : ¬ (normalizeQuery q).contains '\n' = true := fun hmem =>
    h (List.contains_iff_mem.mp hmem)
  simp only [splitQuery, hcontains]
  rfl

/-- A text without invisible characters is only trimmed. -/
theorem normalizeQuery_of_visible {s : Text} (h : ∀ c ∈ s, isInvisible c = false) :
    normalizeQuery s = trim s := by
  rw [normalizeQuery, List.filter_eq_self.mpr fun c hc => by simp [h c hc]]

/-- No ASCII character is invisible. -/
theorem isInvisible_of_ascii {c : Char} (h : c.toNat < 128) : isInvisible c = false := by
  by_contra hinvisible
  simp only [isInvisible, Bool.not_eq_false, Bool.or_eq_true, decide_eq_true_eq] at hinvisible
  rcases hinvisible with (((rfl | rfl) | rfl) | rfl) | rfl <;> exact absurd h (by decide)

/-- A normal form holds nothing invisible. -/
theorem isInvisible_of_mem_normalizeQuery {q : Text} {c : Char} (h : c ∈ normalizeQuery q) :
    isInvisible c = false := by
  simpa using (List.mem_filter.mp (mem_of_mem_trim h)).2

namespace Editor

/-- The lines of a query are those of its normal form. -/
theorem queryLines_eq {q : Text} (h : '\n' ∈ normalizeQuery q) :
    queryLines q = splitOn '\n' (normalizeQuery q) := by
  rw [queryLines, if_neg]
  intro hempty
  rw [List.isEmpty_iff.mp hempty] at h
  exact absurd h (by decide)

/-- A query holds what its lines hold. -/
theorem mem_normalizeQuery {q line : Text} (h : '\n' ∈ normalizeQuery q) {c : Char}
    (hline : line ∈ queryLines q) (hc : c ∈ line) : c ∈ normalizeQuery q := by
  rw [queryLines_eq h] at hline
  rw [← joinWith_splitOn '\n' (normalizeQuery q)]
  exact mem_joinWith_of_mem hline hc

/-- The lines that are edited have the parts of the query. -/
theorem lineParts_normalizeQuery {q : Text} (h : '\n' ∈ normalizeQuery q) :
    lineParts (normalizeQuery q) = (queryLines q).flatMap lineParts := by
  rw [queryLines_eq h, ← lineParts_joinWith, joinWith_splitOn]

/-- Whether the line holds something. -/
def isFilled (line : Text) : Bool := !(trim line).isEmpty

/-- A line holds something when it is not trimmed to nothing. -/
theorem isFilled_iff {line : Text} : isFilled line = true ↔ trim line ≠ [] := by
  simp [isFilled]

/-- One character that is not blank is enough. -/
theorem isFilled_of_mem {c : Char} {line : Text} (h : c ∈ line) (hc : isBlank c = false) :
    isFilled line = true :=
  isFilled_iff.mpr (trim_ne_nil_of_mem h hc)

/-- Blank lines have no parts. -/
theorem flatMap_lineParts_filter (ls : List Text) :
    (ls.filter isFilled).flatMap lineParts = ls.flatMap lineParts := by
  induction ls with
  | nil => rfl
  | cons l ls ih =>
      by_cases hl : isFilled l = true
      · rw [List.filter_cons_of_pos hl, List.flatMap_cons, List.flatMap_cons, ih]
      · have hblank : trim l = [] := by simpa [isFilled_iff] using hl
        rw [List.filter_cons_of_neg hl, ih, List.flatMap_cons,
          lineParts_of_blank (trim_eq_nil_iff.mp hblank), List.nil_append]

/-- Of a text that holds something some line does. -/
theorem countP_isFilled_splitOn_pos {s : Text} (h : trim s ≠ []) :
    0 < (splitOn '\n' s).countP isFilled := by
  obtain ⟨c, hmem, hc⟩ : ∃ c ∈ s, isBlank c = false := by
    simpa [trim_eq_nil_iff] using h
  rw [← joinWith_splitOn '\n' s] at hmem
  rcases mem_joinWith hmem with hnewline | ⟨line, hline, hmem⟩
  · rw [List.mem_singleton.mp hnewline] at hc
    exact absurd hc (by decide)
  · exact List.countP_pos_iff.mpr ⟨line, hline, isFilled_of_mem hmem hc⟩

/-- In a query of several lines two of them hold something, the first and the last. -/
theorem two_le_countP_isFilled {q : Text} (h : '\n' ∈ normalizeQuery q) :
    2 ≤ (queryLines q).countP isFilled := by
  have hhead : ∀ c, (normalizeQuery q).head? = some c → isBlank c = false := fun _ =>
    isBlank_of_head_trim
  have hlast : ∀ c, (normalizeQuery q).getLast? = some c → isBlank c = false := fun _ =>
    isBlank_of_getLast_trim
  obtain ⟨u, v, huv⟩ := List.append_of_mem h
  rw [huv] at hhead hlast
  have hu : trim u ≠ [] := by
    cases u with
    | nil => exact absurd (hhead '\n' rfl) (by decide)
    | cons c u => exact trim_ne_nil_of_mem List.mem_cons_self (hhead c rfl)
  have hv : trim v ≠ [] := by
    rcases v.eq_nil_or_concat' with rfl | ⟨v, c, rfl⟩
    · exact absurd (hlast '\n' (by simp)) (by decide)
    · refine trim_ne_nil_of_mem (List.mem_append_right v (List.mem_singleton_self c)) (hlast c ?_)
      rw [← List.cons_append, ← List.append_assoc, List.getLast?_concat]
  rw [queryLines_eq h, huv, splitOn_append, List.countP_append]
  have := countP_isFilled_splitOn_pos hu
  have := countP_isFilled_splitOn_pos hv
  omega

/-! ## Lines put together -/

variable {ls : List Text}

/-- A query of visible lines is visible. -/
theorem visible_ofLines (h : ∀ l ∈ ls, ∀ c ∈ l, isInvisible c = false) :
    ∀ c ∈ ofLines ls, isInvisible c = false := by
  intro c hc
  rcases mem_joinWith hc with hnewline | ⟨l, hl, hc⟩
  · rw [List.mem_singleton.mp hnewline]
    rfl
  · exact h l (List.mem_of_mem_filter hl) c hc

/-- The query of some lines has their parts. -/
theorem lineParts_ofLines (h : ∀ l ∈ ls, ∀ c ∈ l, isInvisible c = false) :
    lineParts (normalizeQuery (ofLines ls)) = ls.flatMap lineParts := by
  rw [normalizeQuery_of_visible (visible_ofLines h), lineParts_trim, ofLines, lineParts_joinWith]
  exact flatMap_lineParts_filter ls

/-- The query of two lines or more that hold something is one of several lines. -/
theorem newline_mem_ofLines (h : ∀ l ∈ ls, ∀ c ∈ l, isInvisible c = false)
    (htwo : 2 ≤ ls.countP isFilled) : '\n' ∈ normalizeQuery (ofLines ls) := by
  rw [normalizeQuery_of_visible (visible_ofLines h)]
  have hfilled : ∀ l ∈ ls.filter isFilled, trim l ≠ [] := fun l hl =>
    isFilled_iff.mp (List.mem_filter.mp hl).2
  rw [List.countP_eq_length_filter] at htwo
  show '\n' ∈ trim (joinWith ['\n'] (ls.filter isFilled))
  match hls : ls.filter isFilled with
  | [] => simp [hls] at htwo
  | [l] => simp [hls] at htwo
  | l :: m :: rest =>
      have hl : trim l ≠ [] := hfilled l (by simp [hls])
      have hm : trim (joinWith ['\n'] (m :: rest)) ≠ [] := by
        have hm : trim m ≠ [] := hfilled m (by simp [hls])
        obtain ⟨c, hc, hblank⟩ : ∃ c ∈ m, isBlank c = false := by
          simpa [trim_eq_nil_iff] using hm
        exact trim_ne_nil_of_mem (mem_joinWith_of_mem List.mem_cons_self hc) hblank
      rw [joinWith_cons (List.cons_ne_nil m rest), trim_append_append hl hm]
      simp

/-- The query of some lines, when it is one line, is one of them or empty. -/
theorem normalizeQuery_ofLines_of_newline_not_mem (h : ∀ l ∈ ls, ∀ c ∈ l, isInvisible c = false)
    (hnewline : '\n' ∉ normalizeQuery (ofLines ls)) :
    normalizeQuery (ofLines ls) = [] ∨ ∃ l ∈ ls, normalizeQuery (ofLines ls) = trim l := by
  have hone : ¬ 2 ≤ ls.countP isFilled := fun htwo => hnewline (newline_mem_ofLines h htwo)
  rw [List.countP_eq_length_filter] at hone
  rw [normalizeQuery_of_visible (visible_ofLines h)]
  show trim (joinWith ['\n'] (ls.filter isFilled)) = [] ∨
    ∃ l ∈ ls, trim (joinWith ['\n'] (ls.filter isFilled)) = trim l
  match hls : ls.filter isFilled with
  | [] => exact .inl rfl
  | [l] => exact .inr ⟨l, List.mem_of_mem_filter (by rw [hls]; simp), rfl⟩
  | l :: m :: rest => simp [hls] at hone

end Editor

end Checklist
