import Checklist.Proofs.Words

/-!
# Trimming — texts without the blanks at their ends

`trim` takes blanks off both ends of a text and nothing else (`exists_trim_eq`), so blanks that are
put there make no difference (`trim_append_of_blank`, `trim_of_blank_append`). A text that holds
something on either side of a middle keeps that middle (`trim_append_append`). Trimming changes
neither the words of a text nor, the second time, anything at all.
-/

namespace Checklist.Text

/-! ## One end -/

/-- A text that begins with no blank is not trimmed at its start. -/
theorem trimStart_cons_of_not_blank {c : Char} (hc : isBlank c = false) (s : Text) :
    trimStart (c :: s) = c :: s := by
  rw [trimStart, List.dropWhile_cons, if_neg (by simp [hc])]

/-- Nothing but blanks is trimmed to nothing. -/
theorem trimStart_eq_nil_iff {s : Text} : trimStart s = [] ↔ ∀ c ∈ s, isBlank c = true :=
  List.dropWhile_eq_nil_iff

/-- The second text is trimmed where the first one is blank. -/
theorem trimStart_append (s t : Text) :
    trimStart (s ++ t) = if trimStart s = [] then trimStart t else trimStart s ++ t := by
  rw [trimStart, List.dropWhile_append, ← trimStart, ← trimStart]
  by_cases h : trimStart s = []
  · rw [if_pos h, if_pos (List.isEmpty_iff.mpr h)]
  · rw [if_neg h, if_neg (fun hempty => h (List.isEmpty_iff.mp hempty))]

/-- What is trimmed off the start is blank. -/
theorem exists_trimStart_eq (s : Text) :
    ∃ b, (∀ c ∈ b, isBlank c = true) ∧ s = b ++ trimStart s :=
  ⟨s.takeWhile isBlank, fun _ hc => List.mem_takeWhile_imp hc,
    List.takeWhile_append_dropWhile.symm⟩

/-- From the end, too, nothing but blanks is trimmed to nothing. -/
theorem trimEnd_eq_nil_iff {s : Text} : trimEnd s = [] ↔ ∀ c ∈ s, isBlank c = true := by
  rw [trimEnd, List.reverse_eq_nil_iff, trimStart_eq_nil_iff]
  simp

/-- The first text is trimmed where the second one is blank. -/
theorem trimEnd_append (s t : Text) :
    trimEnd (s ++ t) = if trimEnd t = [] then trimEnd s else s ++ trimEnd t := by
  simp only [trimEnd, List.reverse_append, trimStart_append, List.reverse_eq_nil_iff]
  split
  · rfl
  · rw [List.reverse_append, List.reverse_reverse]

/-- What is trimmed off the end is blank. -/
theorem exists_trimEnd_eq (s : Text) :
    ∃ b, (∀ c ∈ b, isBlank c = true) ∧ s = trimEnd s ++ b := by
  obtain ⟨b, hb, hs⟩ := exists_trimStart_eq s.reverse
  refine ⟨b.reverse, fun c hc => hb c (List.mem_reverse.mp hc), ?_⟩
  rw [trimEnd, ← List.reverse_append, ← hs, List.reverse_reverse]

/-- A text that ends with no blank is not trimmed at its end. -/
theorem trimEnd_concat_of_not_blank {c : Char} (hc : isBlank c = false) (s : Text) :
    trimEnd (s ++ [c]) = s ++ [c] := by
  rw [trimEnd_append, if_neg (by simp [trimEnd_eq_nil_iff, hc])]
  simp [trimEnd, trimStart, hc]

/-! ## Both ends -/

/-- A text is trimmed to nothing when it is blank. -/
theorem trim_eq_nil_iff {s : Text} : trim s = [] ↔ ∀ c ∈ s, isBlank c = true := by
  rw [trim, trimEnd_eq_nil_iff]
  obtain ⟨b, hb, hs⟩ := exists_trimStart_eq s
  constructor
  · intro h c hc
    rw [hs] at hc
    rcases List.mem_append.mp hc with hc | hc
    · exact hb c hc
    · exact h c hc
  · intro h c hc
    exact h c (by rw [hs]; exact List.mem_append_right b hc)

/-- A text holds something that is not blank when trimming leaves something. -/
theorem trim_ne_nil_of_mem {c : Char} {s : Text} (h : c ∈ s) (hc : isBlank c = false) :
    trim s ≠ [] := by
  intro hnil
  rw [trim_eq_nil_iff.mp hnil c h] at hc
  exact absurd hc (by decide)

/-- Blanks in front make no difference. -/
theorem trim_of_blank_append {b : Text} (hb : ∀ c ∈ b, isBlank c = true) (s : Text) :
    trim (b ++ s) = trim s := by
  rw [trim, trimStart_append_of_blank hb, trim]

/-- Blanks behind make no difference. -/
theorem trim_append_of_blank {b : Text} (hb : ∀ c ∈ b, isBlank c = true) (s : Text) :
    trim (s ++ b) = trim s := by
  rw [trim, trimStart_append]
  split
  · next hs =>
      rw [trimStart_eq_nil_iff.mpr hb, trim, hs]
  · rw [trimEnd_append, if_pos (trimEnd_eq_nil_iff.mpr hb), trim]

/-- The blanks at the ends and what stands between them. -/
theorem exists_trim_eq (s : Text) : ∃ b b', (∀ c ∈ b, isBlank c = true) ∧
    (∀ c ∈ b', isBlank c = true) ∧ s = b ++ trim s ++ b' := by
  obtain ⟨b, hb, hs⟩ := exists_trimStart_eq s
  obtain ⟨b', hb', hs'⟩ := exists_trimEnd_eq (trimStart s)
  refine ⟨b, b', hb, hb', ?_⟩
  rw [List.append_assoc, trim, ← hs', ← hs]

/-- Trimming adds no character. -/
theorem mem_of_mem_trim {c : Char} {s : Text} (h : c ∈ trim s) : c ∈ s := by
  obtain ⟨b, b', -, -, hs⟩ := exists_trim_eq s
  rw [hs]
  exact List.mem_append_left b' (List.mem_append_right b h)

/-- With something on either side of it, a middle part stays. -/
theorem trim_append_append {x y : Text} (hx : trim x ≠ []) (hy : trim y ≠ []) (m : Text) :
    trim (x ++ m ++ y) = trimStart x ++ m ++ trimEnd y := by
  have hx' : trimStart x ≠ [] := fun h => hx (trim_eq_nil_iff.mpr (trimStart_eq_nil_iff.mp h))
  have hy' : trimEnd y ≠ [] := fun h => hy (trim_eq_nil_iff.mpr (trimEnd_eq_nil_iff.mp h))
  rw [List.append_assoc, trim, trimStart_append, if_neg hx', ← List.append_assoc, trimEnd_append,
    if_neg hy']

/-- A text that begins and ends with something else than a blank is trimmed. -/
theorem trim_eq_self {s : Text} (hhead : ∀ c, s.head? = some c → isBlank c = false)
    (hlast : ∀ c, s.getLast? = some c → isBlank c = false) : trim s = s := by
  have hstart : trimStart s = s := by
    cases s with
    | nil => rfl
    | cons c s => exact trimStart_cons_of_not_blank (hhead c rfl) s
  rw [trim, hstart]
  rcases s.eq_nil_or_concat' with rfl | ⟨t, c, rfl⟩
  · rfl
  · exact trimEnd_concat_of_not_blank (hlast c (by simp)) t

/-- A text without blanks is not trimmed. -/
theorem trim_of_not_blank {s : Text} (h : ∀ c ∈ s, isBlank c = false) : trim s = s :=
  trim_eq_self (fun c hc => h c (List.mem_of_head? hc)) fun c hc => h c (List.mem_of_getLast? hc)

/-- No blank is left in front. -/
theorem isBlank_of_head_trimStart {s : Text} {c : Char} (h : (trimStart s).head? = some c) :
    isBlank c = false := by
  have hhead := List.head?_dropWhile_not isBlank s
  rw [← trimStart, h] at hhead
  simpa using hhead

/-- A trimmed text begins with no blank. -/
theorem isBlank_of_head_trim {s : Text} {c : Char} (h : (trim s).head? = some c) :
    isBlank c = false := by
  obtain ⟨b, -, hs⟩ := exists_trimEnd_eq (trimStart s)
  refine isBlank_of_head_trimStart (s := s) ?_
  rw [hs, List.head?_append, ← trim, h]
  rfl

/-- A trimmed text ends with no blank. -/
theorem isBlank_of_getLast_trim {s : Text} {c : Char} (h : (trim s).getLast? = some c) :
    isBlank c = false := by
  rw [trim, trimEnd, List.getLast?_reverse] at h
  exact isBlank_of_head_trimStart h

/-- A text is trimmed once and for all. -/
@[simp] theorem trim_trim (s : Text) : trim (trim s) = trim s :=
  trim_eq_self (fun _ => isBlank_of_head_trim) fun _ => isBlank_of_getLast_trim

/-! ## Words -/

/-- A blank text has no words. -/
theorem words_of_blank {b : Text} (hb : ∀ c ∈ b, isBlank c = true) : words b = [] := by
  induction b with
  | nil => rfl
  | cons c b ih =>
      rw [words_cons_of_isBlank (hb c (by simp)), ih fun d hd => hb d (by simp [hd])]

/-- Blanks in front of a text add no words. -/
theorem words_of_blank_append {b : Text} (hb : ∀ c ∈ b, isBlank c = true) (s : Text) :
    words (b ++ s) = words s := by
  induction b with
  | nil => rfl
  | cons c b ih =>
      rw [List.cons_append, words_cons_of_isBlank (hb c (by simp)),
        ih fun d hd => hb d (by simp [hd])]

/-- Blanks behind a text add no words. -/
theorem words_append_of_blank {b : Text} (hb : ∀ c ∈ b, isBlank c = true) (s : Text) :
    words (s ++ b) = words s := by
  cases b with
  | nil => rw [List.append_nil]
  | cons c b =>
      have hrest : words b = [] := words_of_blank fun d hd => hb d (List.mem_cons_of_mem c hd)
      rw [words_append_blank (hb c (by simp)), hrest, List.append_nil]

/-- Trimming keeps the words. -/
@[simp] theorem words_trim (s : Text) : words (trim s) = words s := by
  obtain ⟨b, b', hb, hb', hs⟩ := exists_trim_eq s
  conv_rhs => rw [hs, words_append_of_blank hb', words_of_blank_append hb]

/-- Words with single spaces between them end with no blank. -/
theorem isBlank_of_getLast_joinWith {ws : List Text}
    (h : ∀ w ∈ ws, w ≠ [] ∧ ∀ c ∈ w, isBlank c = false) {c : Char}
    (hc : (joinWith [' '] ws).getLast? = some c) : isBlank c = false := by
  rw [getLast?_joinWith fun w hw => (h w hw).1] at hc
  obtain ⟨w, hw, hc⟩ := Option.bind_eq_some_iff.mp hc
  exact (h w (List.mem_of_getLast? hw)).2 c (List.mem_of_getLast? hc)

/-- A collapsed text has no blanks at its ends. -/
theorem trim_collapse (s : Text) : trim (collapse s) = collapse s :=
  trim_eq_self (fun _ => isBlank_of_head_collapse) fun _ =>
    isBlank_of_getLast_joinWith fun _ hw => ⟨ne_nil_of_mem_words hw, not_isBlank_of_mem_words hw⟩

end Checklist.Text
