import Mathlib.Data.List.Basic
import Mathlib.Data.List.TakeWhile
import Checklist.Text.Blank

/-!
# Words — how texts that are put together fall into words

`words` cuts a text at its blanks, so it takes a text apart at every blank in it
(`words_append_blank`), and the words hold all that is not blank (`flatten_words`). Writing the
words with single spaces and reading them again gives them back (`words_collapse`); so a text that
is collapsed is known by its words, and `collapse` changes nothing the second time.

A row of texts with a space before each of them is `spaced`. It is the shape of what stands behind
the first part of a line, and unlike `joinWith` it turns the joining of rows into the joining of
texts.
-/

namespace Checklist.Text

/-! ## Rows of texts -/

/-- The texts in order, each with a space before it. -/
def spaced (texts : List Text) : Text := texts.flatMap (' ' :: ·)

@[simp] theorem spaced_nil : spaced [] = [] := rfl

@[simp] theorem spaced_cons (t : Text) (texts : List Text) :
    spaced (t :: texts) = ' ' :: (t ++ spaced texts) := rfl

@[simp] theorem spaced_append (texts others : List Text) :
    spaced (texts ++ others) = spaced texts ++ spaced others :=
  List.flatMap_append

/-- Texts joined with spaces are the first of them and the rest behind spaces. -/
theorem joinWith_space_cons (t : Text) (texts : List Text) :
    joinWith [' '] (t :: texts) = t ++ spaced texts := by
  induction texts generalizing t with
  | nil => simp [joinWith]
  | cons u texts ih => rw [joinWith_cons (by simp), ih]; simp

/-- A character between spaced texts is a space, or it is in one of them. -/
theorem mem_spaced {c : Char} {texts : List Text} (h : c ∈ spaced texts) :
    c = ' ' ∨ ∃ t ∈ texts, c ∈ t := by
  obtain ⟨t, ht, hc⟩ := List.mem_flatMap.mp h
  rcases List.mem_cons.mp hc with rfl | hc
  · exact .inl rfl
  · exact .inr ⟨t, ht, hc⟩

/-- A character of a text is still there when the text is spaced. -/
theorem mem_spaced_of_mem {c : Char} {t : Text} {texts : List Text} (ht : t ∈ texts) (hc : c ∈ t) :
    c ∈ spaced texts :=
  List.mem_flatMap.mpr ⟨t, ht, List.mem_cons_of_mem _ hc⟩

/-- A character of a joined text is from the separator or from one of the texts. -/
theorem mem_joinWith {c : Char} {sep : Text} {ls : List Text} (h : c ∈ joinWith sep ls) :
    c ∈ sep ∨ ∃ l ∈ ls, c ∈ l := by
  induction ls with
  | nil => exact absurd h (by simp [joinWith])
  | cons l ls ih =>
      cases ls with
      | nil => exact .inr ⟨l, by simp, h⟩
      | cons m ls =>
          rw [joinWith_cons (List.cons_ne_nil m ls), List.mem_append, List.mem_append] at h
          rcases h with (h | h) | h
          · exact .inr ⟨l, by simp, h⟩
          · exact .inl h
          · rcases ih h with h | ⟨n, hn, h⟩
            · exact .inl h
            · exact .inr ⟨n, List.mem_cons_of_mem l hn, h⟩

/-- A character of a text is still there when the text is joined to others. -/
theorem mem_joinWith_of_mem {c : Char} {sep l : Text} {ls : List Text} (hl : l ∈ ls)
    (hc : c ∈ l) : c ∈ joinWith sep ls := by
  induction ls with
  | nil => exact absurd hl (by simp)
  | cons m ls ih =>
      cases ls with
      | nil =>
          rw [List.mem_singleton.mp hl] at hc
          exact hc
      | cons n ls =>
          rw [joinWith_cons (List.cons_ne_nil n ls)]
          rcases List.mem_cons.mp hl with rfl | hl
          · exact List.mem_append_left _ (List.mem_append_left _ hc)
          · exact List.mem_append_right _ (ih hl)

/-- A row of texts that are not empty begins as its first text does. -/
theorem head?_joinWith {sep : Text} {ls : List Text} (h : ∀ l ∈ ls, l ≠ []) :
    (joinWith sep ls).head? = ls.head?.bind List.head? := by
  cases ls with
  | nil => rfl
  | cons l ls =>
      cases ls with
      | nil => rfl
      | cons m ls =>
          rw [joinWith_cons (List.cons_ne_nil m ls), List.append_assoc,
            List.head?_append_of_ne_nil _ (h l List.mem_cons_self)]
          rfl

/-- A row of texts that are not empty ends as its last text does. -/
theorem getLast?_joinWith {sep : Text} {ls : List Text} (h : ∀ l ∈ ls, l ≠ []) :
    (joinWith sep ls).getLast? = ls.getLast?.bind List.getLast? := by
  induction ls with
  | nil => rfl
  | cons l ls ih =>
      cases ls with
      | nil => rfl
      | cons m ls =>
          have hrest := ih fun n hn => h n (List.mem_cons_of_mem l hn)
          have hne : joinWith sep (m :: ls) ≠ [] := by
            intro hnil
            have hhead : (joinWith sep (m :: ls)).head? = m.head? :=
              head?_joinWith fun n hn => h n (List.mem_cons_of_mem l hn)
            rw [hnil] at hhead
            exact h m (by simp) (List.head?_eq_none_iff.mp hhead.symm)
          rw [joinWith_cons (List.cons_ne_nil m ls), List.getLast?_append_of_ne_nil _ hne, hrest,
            List.getLast?_cons_cons]

/-! ## Cutting at a character -/

/-- A text is cut at the first separator in it. -/
theorem cutAt?_eq_some_iff {sep : Char} {s before after : Text} :
    cutAt? sep s = some (before, after) ↔ s = before ++ sep :: after ∧ sep ∉ before := by
  induction s generalizing before with
  | nil => simp [cutAt?]
  | cons c s ih =>
      rw [cutAt?]
      -- At the separator the cut is here, and otherwise it is behind this character.
      split
      · next hc =>
          subst hc
          constructor
          · intro h
            obtain ⟨rfl, rfl⟩ := Prod.mk.inj (Option.some.inj h)
            exact ⟨rfl, by simp⟩
          · rintro ⟨heq, hmem⟩
            cases before with
            | nil => simpa using heq
            | cons d before =>
                obtain ⟨rfl, -⟩ := List.cons.inj heq
                exact absurd (by simp) hmem
      · next hc =>
          constructor
          · intro h
            obtain ⟨⟨b, a⟩, hcut, heq⟩ := Option.map_eq_some_iff.mp h
            obtain ⟨rfl, rfl⟩ := Prod.mk.inj heq
            obtain ⟨rfl, hmem⟩ := ih.mp hcut
            exact ⟨rfl, by simp [hmem, Ne.symm hc]⟩
          · rintro ⟨heq, hmem⟩
            cases before with
            | nil =>
                obtain ⟨rfl, -⟩ := List.cons.inj heq
                exact absurd rfl hc
            | cons d before =>
                obtain ⟨rfl, rfl⟩ := List.cons.inj heq
                rw [ih.mpr ⟨rfl, fun h => hmem (by simp [h])⟩]
                rfl

/-- A text is not cut when the separator is not in it. -/
theorem cutAt?_eq_none_iff {sep : Char} {s : Text} : cutAt? sep s = none ↔ sep ∉ s := by
  induction s with
  | nil => simp [cutAt?]
  | cons c s ih =>
      rw [cutAt?]
      split
      · next hc => simp [hc]
      · next hc => simp [ih, Ne.symm hc]

/-! ## Cutting into words -/

@[simp] theorem isBlank_space : isBlank ' ' = true := by decide

/-- A blank at the start is in no word. -/
theorem words_cons_of_isBlank {c : Char} (hc : isBlank c = true) (s : Text) :
    words (c :: s) = words s := by
  rw [words.eq_def]
  simp only [if_pos hc]

/-- The first word is the longest stretch without a blank. -/
theorem words_cons {c : Char} (hc : isBlank c = false) (s : Text) :
    words (c :: s) =
      (c :: s.takeWhile (!isBlank ·)) :: words (s.dropWhile (!isBlank ·)) := by
  induction s generalizing c with
  | nil => simp [words, hc]
  | cons d s ih =>
      cases hd : isBlank d with
      | true => simp [words, hc, hd]
      | false =>
          rw [words.eq_3, if_neg (by simp [hc]), if_neg (by simp [hd]), ih hd]
          simp [hd]

/-- A stretch ends at a character of another class, whatever follows. -/
theorem span_append {p : Char → Bool} {c : Char} (hc : p c = false) (s t : Text) :
    (s ++ c :: t).takeWhile p = s.takeWhile p ∧
      (s ++ c :: t).dropWhile p = s.dropWhile p ++ c :: t := by
  induction s with
  | nil => simp [hc]
  | cons d s ih => cases hd : p d <;> simp [hd, ih]

/-- A text gets no longer when its first characters are dropped. -/
theorem length_dropWhile_le (p : Char → Bool) (s : Text) : (s.dropWhile p).length ≤ s.length :=
  (List.dropWhile_suffix p).length_le

/-- A text falls apart at every blank. -/
theorem words_append_blank {c : Char} (hc : isBlank c = true) (s t : Text) :
    words (s ++ c :: t) = words s ++ words t := by
  match s with
  | [] => exact words_cons_of_isBlank hc t
  | d :: s =>
      cases hd : isBlank d with
      | true =>
          rw [List.cons_append, words_cons_of_isBlank hd, words_cons_of_isBlank hd]
          exact words_append_blank hc s t
      | false =>
          have hc' : (!isBlank c) = false := by simp [hc]
          obtain ⟨htake, hdrop⟩ := span_append (p := (!isBlank ·)) hc' s t
          have := length_dropWhile_le (!isBlank ·) s
          rw [List.cons_append, words_cons hd, words_cons hd, htake, hdrop,
            words_append_blank hc (s.dropWhile (!isBlank ·)) t]
          rfl
termination_by s.length

/-- A text without blanks is one word. -/
theorem words_of_not_blank {w : Text} (hne : w ≠ []) (h : ∀ c ∈ w, isBlank c = false) :
    words w = [w] := by
  cases w with
  | nil => exact absurd rfl hne
  | cons c w =>
      have hall : ∀ d ∈ w, (!isBlank d) = true := fun d hd => by simp [h d (by simp [hd])]
      rw [words_cons (h c (by simp)), List.takeWhile_eq_self_iff.mpr hall,
        List.dropWhile_eq_nil_iff.mpr hall]
      rfl

/-- The words hold all that is not blank. -/
theorem flatten_words (s : Text) : (words s).flatten = s.filter (!isBlank ·) := by
  fun_induction words s with
  | case1 => rfl
  | case2 c s hc ih => simp [hc, ih]
  | case3 c hc => simp [hc]
  | case4 c hc d s hd ih => simp_all
  | case5 c hc d s hd heq ih => simp_all
  | case6 c hc d s hd word rest heq ih => simp_all

/-- What is not blank stands in a word. -/
theorem exists_word_of_mem {c : Char} {s : Text} (h : c ∈ s) (hc : isBlank c = false) :
    ∃ w ∈ words s, c ∈ w := by
  have hmem : c ∈ (words s).flatten := by
    rw [flatten_words]
    exact List.mem_filter.mpr ⟨h, by simp [hc]⟩
  simpa using hmem

/-- The words of spaced texts are the words of each in turn. -/
@[simp] theorem words_spaced (texts : List Text) : words (spaced texts) = texts.flatMap words := by
  induction texts with
  | nil => rfl
  | cons t texts ih =>
      rw [spaced_cons, words_cons_of_isBlank isBlank_space, List.flatMap_cons, ← ih]
      cases texts with
      | nil => simp [words]
      | cons u texts =>
          rw [spaced_cons, words_append_blank isBlank_space, words_cons_of_isBlank isBlank_space]

/-- So are those of a text with spaced texts behind it. -/
theorem words_append_spaced (s : Text) (texts : List Text) :
    words (s ++ spaced texts) = words s ++ texts.flatMap words := by
  cases texts with
  | nil => simp
  | cons t texts =>
      rw [← words_spaced, spaced_cons, words_append_blank isBlank_space,
        words_cons_of_isBlank isBlank_space]

/-- So are those of texts joined with spaces. -/
theorem words_joinWith_space (texts : List Text) :
    words (joinWith [' '] texts) = texts.flatMap words := by
  cases texts with
  | nil => rfl
  | cons t texts => rw [joinWith_space_cons, words_append_spaced, List.flatMap_cons]

/-! ## Collapsed texts -/

/-- Words of a text are single words. -/
theorem flatMap_words {s : Text} {ws : List Text} (h : ∀ w ∈ ws, w ∈ words s) :
    ws.flatMap words = ws :=
  calc ws.flatMap words = ws.flatMap (fun w => [w]) :=
        List.flatMap_congr fun w hw =>
          words_of_not_blank (ne_nil_of_mem_words (h w hw)) (not_isBlank_of_mem_words (h w hw))
    _ = ws := List.flatMap_singleton' ws

/-- Words that are written with single spaces are read again. -/
@[simp] theorem words_collapse (s : Text) : words (collapse s) = words s := by
  have hwords : (words s).flatMap words = words s := flatMap_words fun _ hw => hw
  rw [collapse]
  cases hws : words s with
  | nil => rfl
  | cons w ws =>
      rw [hws, List.flatMap_cons] at hwords
      rw [joinWith_space_cons, words_append_spaced, hwords]

/-- A text is collapsed once and for all. -/
@[simp] theorem collapse_collapse (s : Text) : collapse (collapse s) = collapse s := by
  rw [collapse, words_collapse]
  rfl

/-- A text collapses to nothing when it has no words. -/
@[simp] theorem collapse_eq_nil_iff {s : Text} : collapse s = [] ↔ words s = [] := by
  constructor
  · intro h
    rw [← words_collapse, h]
    rfl
  · intro h
    rw [collapse, h]
    rfl

/-- The words of a text that is not empty and begins with no blank do not run out. -/
theorem words_ne_nil_of_head {c : Char} {s : Text} (hc : isBlank c = false) :
    words (c :: s) ≠ [] := by
  rw [words_cons hc]
  exact List.cons_ne_nil _ _

/-- A collapsed text begins with no blank. -/
theorem isBlank_of_head_collapse {s : Text} {c : Char} (h : (collapse s).head? = some c) :
    isBlank c = false := by
  cases hws : words s with
  | nil => simp [collapse, hws, joinWith] at h
  | cons w ws =>
      have hw : w ∈ words s := by simp [hws]
      rw [collapse, hws, joinWith_space_cons] at h
      cases w with
      | nil => exact absurd rfl (ne_nil_of_mem_words hw)
      | cons d w =>
          obtain rfl : d = c := by simpa using h
          exact not_isBlank_of_mem_words hw d (by simp)

/-- The only blank in a collapsed text is the space. -/
theorem eq_space_of_mem_collapse {s : Text} {c : Char} (h : c ∈ collapse s)
    (hc : isBlank c = true) : c = ' ' := by
  have hword : ∀ w ∈ words s, c ∉ w := fun w hw hmem => by
    simp [not_isBlank_of_mem_words hw c hmem] at hc
  cases hws : words s with
  | nil => simp [collapse, hws, joinWith] at h
  | cons w ws =>
      rw [collapse, hws, joinWith_space_cons, List.mem_append] at h
      rcases h with h | h
      · exact absurd h (hword w (by simp [hws]))
      · rcases mem_spaced h with h | ⟨v, hv, h⟩
        · exact h
        · exact absurd h (hword v (by simp [hws, hv]))

end Checklist.Text
