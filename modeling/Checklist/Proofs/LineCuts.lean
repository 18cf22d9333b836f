import Checklist.Text.Lines

/-!
# Line cuts — the lines of texts that are put together

Where a text without boundaries is put before another, it goes to the first line of that text
(`lines_append`). So a text that is written line by line, each of them closed by a line feed, is cut
into these lines again (`lines_flatMap_newline`). What depends on the lines of a text is proved by
induction on its boundaries (`boundary_induction`).

A text without carriage returns ends each of its lines with one character, so it is cut in two
between any of its lines (`exists_cut_of_lines_eq`), and what stands behind the cut can be another
text.
-/

namespace Checklist.Text

/-- The lines with a text in front of the first of them. -/
def prependToFirst (w : Text) : List Line → List Line
  | [] => [⟨w, []⟩]
  | line :: rest => ⟨w ++ line.body, line.ending⟩ :: rest

theorem lines_cons_of_not_boundary {c : Char} (hc : isBoundary c = false) (s : Text) :
    lines (c :: s) = prependToFirst [c] (lines s) := by
  generalize hcs : c :: s = all
  fun_cases lines all with
  | case1 => exact absurd hcs (List.cons_ne_nil c s)
  | case2 t =>
      obtain ⟨rfl, rfl⟩ := List.cons.inj hcs
      exact absurd hc (by decide)
  | case3 d t _ hd =>
      obtain ⟨rfl, rfl⟩ := List.cons.inj hcs
      exact absurd hd (by simp [hc])
  | case4 d t _ hd hnil =>
      obtain ⟨rfl, rfl⟩ := List.cons.inj hcs
      rw [hnil]
      rfl
  | case5 d t _ hd first rest hfirst =>
      obtain ⟨rfl, rfl⟩ := List.cons.inj hcs
      rw [hfirst]
      rfl

/-- A text without boundaries goes to the first line of what follows. -/
theorem lines_append {w : Text} (hne : w ≠ []) (h : ∀ c ∈ w, isBoundary c = false) (s : Text) :
    lines (w ++ s) = prependToFirst w (lines s) := by
  induction w with
  | nil => exact absurd rfl hne
  | cons c w ih =>
      have hc : isBoundary c = false := h c (by simp)
      rw [List.cons_append, lines_cons_of_not_boundary hc]
      cases w with
      | nil => rfl
      | cons d w =>
          rw [ih (by simp) fun e he => h e (by simp [he])]
          cases lines s <;> rfl

/-- A text without boundaries is one line. -/
theorem lines_of_not_boundary {w : Text} (hne : w ≠ []) (h : ∀ c ∈ w, isBoundary c = false) :
    lines w = [⟨w, []⟩] := by
  have happend := lines_append hne h []
  rw [List.append_nil] at happend
  exact happend

theorem lines_cons_of_boundary {c : Char} (hc : isBoundary c = true) (hreturn : c ≠ '\r')
    (s : Text) : lines (c :: s) = ⟨[], [c]⟩ :: lines s := by
  generalize hcs : c :: s = all
  fun_cases lines all with
  | case1 => exact absurd hcs (List.cons_ne_nil c s)
  | case2 t => exact absurd (List.cons.inj hcs).1 hreturn
  | case3 d t _ hd =>
      obtain ⟨rfl, rfl⟩ := List.cons.inj hcs
      rfl
  | case4 d t _ hd hnil =>
      obtain ⟨rfl, rfl⟩ := List.cons.inj hcs
      exact absurd hc hd
  | case5 d t _ hd first rest hfirst =>
      obtain ⟨rfl, rfl⟩ := List.cons.inj hcs
      exact absurd hc hd

/-- A carriage return without a line feed behind it is a boundary by itself. -/
theorem lines_cons_return {s : Text} (h : ∀ t, s ≠ '\n' :: t) :
    lines ('\r' :: s) = ⟨[], ['\r']⟩ :: lines s := by
  generalize hcs : '\r' :: s = all
  fun_cases lines all with
  | case1 => exact absurd hcs (List.cons_ne_nil _ s)
  | case2 t => exact absurd (List.cons.inj hcs).2 (h t)
  | case3 d t _ hd =>
      obtain ⟨rfl, rfl⟩ := List.cons.inj hcs
      rfl
  | case4 d t _ hd hnil =>
      obtain ⟨rfl, rfl⟩ := List.cons.inj hcs
      exact absurd (by decide) hd
  | case5 d t _ hd first rest hfirst =>
      obtain ⟨rfl, rfl⟩ := List.cons.inj hcs
      exact absurd (by decide) hd

/-- A line that is closed by a single boundary is cut off. -/
theorem lines_append_boundary {w : Text} (h : ∀ c ∈ w, isBoundary c = false) {c : Char}
    (hc : isBoundary c = true) (hreturn : c ≠ '\r') (s : Text) :
    lines (w ++ c :: s) = ⟨w, [c]⟩ :: lines s := by
  cases w with
  | nil => exact lines_cons_of_boundary hc hreturn s
  | cons d w =>
      rw [lines_append (by simp) h, lines_cons_of_boundary hc hreturn]
      simp [prependToFirst]

/-- A line that is closed by a line feed is cut off. -/
theorem lines_append_newline {w : Text} (h : ∀ c ∈ w, isBoundary c = false) (s : Text) :
    lines (w ++ '\n' :: s) = ⟨w, ['\n']⟩ :: lines s :=
  lines_append_boundary h (by decide) (by decide) s

/-- Lines that are written one by one are read again. -/
theorem lines_flatMap_newline {ws : List Text} (h : ∀ w ∈ ws, ∀ c ∈ w, isBoundary c = false) :
    (lines (ws.flatMap (· ++ ['\n']))).map Line.body = ws := by
  induction ws with
  | nil => rfl
  | cons w ws ih =>
      rw [List.flatMap_cons, List.append_assoc]
      show (lines (w ++ '\n' :: ws.flatMap (· ++ ['\n']))).map Line.body = w :: ws
      rw [lines_append_newline (h w (by simp)), List.map_cons,
        ih fun w hw => h w (by simp [hw])]

/-! ## Induction on the boundaries -/

/-- A text has no character of a class, or it is a text without one, the character behind it, and a
text. -/
theorem cut_induction {P : Text → Prop} (p : Char → Bool)
    (free : ∀ w, (∀ c ∈ w, p c = false) → P w)
    (cut : ∀ w c s, (∀ d ∈ w, p d = false) → p c = true → P s → P (w ++ c :: s)) (s : Text) :
    P s := by
  suffices h : ∀ w, (∀ c ∈ w, p c = false) → P (w ++ s) from h [] (by simp)
  induction s with
  | nil =>
      intro w hw
      rw [List.append_nil]
      exact free w hw
  | cons c s ih =>
      intro w hw
      cases hc : p c with
      | true => exact cut w c s hw hc (ih [] (by simp))
      | false =>
          rw [← List.singleton_append, ← List.append_assoc]
          refine ih (w ++ [c]) fun d hd => ?_
          rcases List.mem_append.mp hd with hd | hd
          · exact hw d hd
          · rw [List.mem_singleton.mp hd, hc]

/-- A text has no boundary, or it is a line, the boundary behind it, and a text. -/
theorem boundary_induction {P : Text → Prop} (free : ∀ w, (∀ c ∈ w, isBoundary c = false) → P w)
    (cut : ∀ w c s, (∀ d ∈ w, isBoundary d = false) → isBoundary c = true → P s → P (w ++ c :: s))
    (s : Text) : P s :=
  cut_induction isBoundary free cut s

/-! ## Texts without carriage returns -/

/-- The first line ends with nothing, and then it is the last, or with one boundary. -/
theorem ending_of_lines_eq_cons {s : Text} (h : '\r' ∉ s) {line : Line} {rest : List Line}
    (hs : lines s = line :: rest) :
    (line.ending = [] ∧ rest = []) ∨
      ∃ c t, isBoundary c = true ∧ c ≠ '\r' ∧ line.ending = [c] ∧ '\r' ∉ t ∧ rest = lines t := by
  fun_induction lines s generalizing line rest with
  | case1 => exact absurd hs.symm (List.cons_ne_nil _ _)
  | case2 s ih => exact absurd (by simp) h
  | case3 c s _ hc ih =>
      obtain ⟨rfl, rfl⟩ := List.cons.inj hs
      rw [List.mem_cons, not_or] at h
      exact .inr ⟨c, s, hc, Ne.symm h.1, rfl, h.2, rfl⟩
  | case4 c s _ hc heq ih =>
      obtain ⟨rfl, rfl⟩ := List.cons.inj hs
      exact .inl ⟨rfl, rfl⟩
  | case5 c s _ hc first others heq ih =>
      obtain ⟨rfl, rfl⟩ := List.cons.inj hs
      have hfirst := ih (fun hmem => h (List.mem_cons_of_mem c hmem)) heq
      exact hfirst

/-- Where the lines are cut in two, so is the text, and the lines before the cut do not depend on
what stands behind it. -/
theorem exists_cut_of_lines_eq {s : Text} (h : '\r' ∉ s) {before after : List Line}
    (hs : lines s = before ++ after) (hne : after ≠ []) :
    (∃ t, '\r' ∉ t ∧ lines t = after) ∧
      ∀ u, lines (before.flatMap Line.source ++ u) = before ++ lines u := by
  induction before generalizing s with
  | nil => exact ⟨⟨s, h, hs⟩, fun u => rfl⟩
  | cons line before ih =>
      rcases ending_of_lines_eq_cons h hs with ⟨-, hnil⟩ | ⟨c, t, hc, hreturn, hending, ht, hrest⟩
      · exact absurd (List.append_eq_nil_iff.mp hnil).2 hne
      · obtain ⟨hcut, hlines⟩ := ih ht hrest.symm
        have hbody : ∀ d ∈ line.body, isBoundary d = false :=
          not_isBoundary_of_mem_lines (s := s) (by rw [hs]; exact List.mem_cons_self)
        refine ⟨hcut, fun u => ?_⟩
        calc lines ((line :: before).flatMap Line.source ++ u)
            = lines (line.body ++ c :: (before.flatMap Line.source ++ u)) := by
              simp [Line.source, hending]
          _ = ⟨line.body, [c]⟩ :: lines (before.flatMap Line.source ++ u) :=
              lines_append_boundary hbody hc hreturn _
          _ = line :: before ++ lines u := by
              rw [hlines, ← hending]
              rfl

end Checklist.Text
