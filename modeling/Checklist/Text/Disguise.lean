import Checklist.Text.Raw

/-!
# Disguises — characters in the place of surrogates

A surrogate is to the library a character like any other that has no meaning. So a raw text is
worked on as a text in which private characters, used nowhere else, stand for the surrogates: `hide`
puts them in and `reveal` takes them out again. As long as there are private characters left, what
is hidden is revealed (`reveal_hide`).
-/

namespace Checklist

/-- The characters that stand for surrogates. -/
abbrev Disguise := List (Fin 0x800 × Char)

namespace Disguise

/-- The private characters of the last plane. -/
def privateChars : Text := (List.range 0xFFFE).map fun n => Char.ofNat (0x100000 + n)

/-- A private character that is not used, if one is left. -/
def fresh? (used : Text) : Option Char := privateChars.find? (!used.contains ·)

/-- The character that stands for a surrogate when no private one is left. -/
def replacement : Char := '\ufffd'

/-- A disguise for the surrogates of a raw text that stays apart from the characters used. -/
def make (used : Text) : RawText → Disguise
  | [] => []
  | .char _ :: s => make used s
  | .surrogate index :: s =>
    let c := (fresh? used).getD replacement
    (index, c) :: make (c :: used) s

/-- A disguise for the raw text, apart from its own characters and from others. -/
def of (s : RawText) (others : Text) : Disguise := make (others ++ s.escaped) s

/-- What a character looks like in disguise. -/
def mask (d : Disguise) : RawChar → Char
  | .char c => c
  | .surrogate index => (d.lookup index).getD replacement

/-- What a character in disguise is. -/
def unmask (d : Disguise) (c : Char) : RawChar :=
  match d.find? (·.2 = c) with
  | some (index, _) => .surrogate index
  | none => .char c

/-- The raw text in disguise. -/
def hide (d : Disguise) (s : RawText) : Text := s.map d.mask

/-- The raw text behind the disguise. -/
def reveal (d : Disguise) (s : Text) : RawText := s.map d.unmask

/-! ## Texts -/

/-- A text is the same in any disguise. -/
theorem hide_ofText (d : Disguise) (s : Text) : d.hide (.ofText s) = s := by
  unfold hide RawText.ofText
  rw [List.map_map]
  exact List.map_id s

/-! ## Raw texts -/

theorem not_mem_of_fresh? {used : Text} {c : Char} (h : fresh? used = some c) : c ∉ used := by
  unfold fresh? at h
  have hnew := List.find?_some h
  simpa using hnew

section Make

variable {used : Text} {s : RawText}

/-- The characters of a disguise are used nowhere, if none of them is the replacement. -/
theorem not_mem_used_of_mem_make (hleft : ∀ pair ∈ make used s, pair.2 ≠ replacement)
    {pair : Fin 0x800 × Char} (h : pair ∈ make used s) : pair.2 ∉ used := by
  induction s generalizing used with
  | nil => exact absurd h List.not_mem_nil
  | cons a s ih =>
    cases a with
    | char c => exact ih hleft h
    | surrogate index =>
      rw [make] at hleft h
      obtain ⟨hfirst, hrest⟩ := List.forall_mem_cons.mp hleft
      rcases List.mem_cons.mp h with rfl | h
      · -- The first character was found by looking for one that is not used.
        cases hfresh : fresh? used with
        | none =>
          rw [hfresh] at hfirst
          exact absurd rfl hfirst
        | some c => exact not_mem_of_fresh? hfresh
      · exact fun hused => ih hrest h (List.mem_cons_of_mem _ hused)

/-- No two surrogates of a disguise have one character. -/
theorem nodup_chars_make (hleft : ∀ pair ∈ make used s, pair.2 ≠ replacement) :
    ((make used s).map Prod.snd).Nodup := by
  induction s generalizing used with
  | nil => exact .nil
  | cons a s ih =>
    cases a with
    | char c => exact ih hleft
    | surrogate index =>
      rw [make] at hleft ⊢
      obtain ⟨-, hrest⟩ := List.forall_mem_cons.mp hleft
      generalize (fresh? used).getD replacement = c at hrest ⊢
      refine List.nodup_cons.mpr ⟨fun hmem => ?_, ih hrest⟩
      obtain ⟨pair, hpair, rfl⟩ := List.mem_map.mp hmem
      exact not_mem_used_of_mem_make hrest hpair List.mem_cons_self

/-- Every surrogate of the raw text has a character. -/
theorem exists_lookup_make (used : Text) {index : Fin 0x800} (h : .surrogate index ∈ s) :
    ∃ c, (make used s).lookup index = some c := by
  induction s generalizing used with
  | nil => exact absurd h List.not_mem_nil
  | cons a s ih =>
    cases a with
    | char c => exact ih used (by simpa using h)
    | surrogate other =>
      rw [make, List.lookup_cons]
      by_cases heq : index = other
      · exact ⟨_, by rw [beq_iff_eq.mpr heq]⟩
      · rw [beq_eq_false_iff_ne.mpr heq]
        exact ih _ (by simpa [heq] using h)

end Make

/-- In a disguise without repetitions each character is that of one surrogate. -/
theorem find?_of_mem {d : Disguise} (hnodup : (d.map Prod.snd).Nodup) {index : Fin 0x800}
    {c : Char} (h : (index, c) ∈ d) : d.find? (·.2 = c) = some (index, c) := by
  induction d with
  | nil => exact absurd h List.not_mem_nil
  | cons first d ih =>
    obtain ⟨hfirst, hrest⟩ := List.nodup_cons.mp hnodup
    rcases List.mem_cons.mp h with rfl | h
    · exact List.find?_cons_of_pos (by simp)
    · have hne : first.2 ≠ c := fun heq => hfirst (heq ▸ List.mem_map_of_mem h)
      rw [List.find?_cons_of_neg (by simpa using hne)]
      exact ih hrest h

/-- What is hidden is revealed, as long as private characters are left. -/
theorem reveal_hide {s : RawText} {others : Text}
    (hleft : ∀ pair ∈ of s others, pair.2 ≠ replacement) :
    (of s others).reveal ((of s others).hide s) = s := by
  unfold reveal hide
  rw [List.map_map]
  refine (List.map_congr_left fun a ha => ?_).trans (List.map_id s)
  cases a with
  | char c =>
    -- A character of the text itself stands for nothing else.
    have hused : c ∈ others ++ s.escaped :=
      List.mem_append_right _ (List.mem_flatMap.mpr ⟨_, ha, List.mem_singleton.mpr rfl⟩)
    have hnone : (of s others).find? (·.2 = c) = none := by
      refine List.find?_eq_none.mpr fun pair hpair hchar => ?_
      exact not_mem_used_of_mem_make hleft hpair (of_decide_eq_true hchar ▸ hused)
    show (of s others).unmask c = .char c
    rw [unmask, hnone]
  | surrogate index =>
    obtain ⟨c, hc⟩ := exists_lookup_make (others ++ s.escaped) ha
    have hlookup : (of s others).lookup index = some c := hc
    obtain ⟨before, after, hpairs, -⟩ := List.lookup_eq_some_iff.mp hlookup
    have hmem : (index, c) ∈ of s others := by
      rw [hpairs]
      exact List.mem_append_right before List.mem_cons_self
    show (of s others).unmask ((of s others).mask (.surrogate index)) = .surrogate index
    have hfind : (of s others).find? (·.2 = c) = some (index, c) :=
      find?_of_mem (nodup_chars_make hleft) hmem
    rw [mask, hlookup, Option.getD_some, unmask, hfind]

end Disguise

end Checklist
