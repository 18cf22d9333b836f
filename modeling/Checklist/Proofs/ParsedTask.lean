import Checklist.Proofs.WrittenLine
import Checklist.Proofs.Recurring

/-!
# Parsed tasks — what holds of every task that is read off a line

Whatever a line holds, the task that is read off it is readable (`readable_of_parse`): its dates are
in the calendar, its tags and dependencies differ and are made of their own characters, its rule has
no sign in it, and its description is collapsed and holds no sign of a priority. Each of these is a
property of the tokens that a scanner hands out, or of the characters that blanking out leaves. With
the priority, which is the highest whose sign stands in the content, they make up the data model
(`inModel_of_parse`).
-/

namespace Checklist

open Text Scanner

/-! ## Texts that differ -/

/-- What is kept of some texts differs, and is not empty. -/
theorem nodup_distinct (texts : List Text) :
    (distinct texts).Nodup ∧ ∀ s ∈ distinct texts, s ≠ [] ∧ s ∈ texts := by
  -- The invariant of the fold: what was seen differs, is not empty and is among the texts.
  have hfold : ∀ (rest seen : List Text), seen.Nodup → (∀ s ∈ seen, s ≠ [] ∧ s ∈ texts) →
      (∀ s ∈ rest, s ∈ texts) →
      (rest.foldl (fun seen s => if s.isEmpty || seen.contains s then seen else seen ++ [s])
        seen).Nodup ∧
      ∀ s ∈ rest.foldl (fun seen s => if s.isEmpty || seen.contains s then seen else seen ++ [s])
        seen, s ≠ [] ∧ s ∈ texts := by
    intro rest
    induction rest with
    | nil => exact fun seen hnodup hseen _ => ⟨hnodup, hseen⟩
    | cons s rest ih =>
        intro seen hnodup hseen hrest
        rw [List.foldl_cons]
        have hrest' : ∀ s ∈ rest, s ∈ texts := fun s hs => hrest s (by simp [hs])
        split
        · exact ih seen hnodup hseen hrest'
        · next hnew =>
            simp only [Bool.or_eq_true, List.isEmpty_iff, List.contains_iff_mem, not_or] at hnew
            refine ih _ ?_ ?_ hrest'
            · rw [List.nodup_append]
              refine ⟨hnodup, by simp, ?_⟩
              intro u hu v hv
              rw [List.mem_singleton.mp hv]
              rintro rfl
              exact hnew.2 hu
            · intro u hu
              rcases List.mem_append.mp hu with hu | hu
              · exact hseen u hu
              · rw [List.mem_singleton.mp hu]
                exact ⟨hnew.1, hrest s (by simp)⟩
  exact hfold texts [] List.nodup_nil (by simp) fun _ hs => hs

/-! ## What tokens are made of -/

/-- A date that is read is the text of a date when it is in the calendar. -/
theorem eq_iso_of_dateShaped {w : Text} {day : Date} (hw : Token.DateShaped w)
    (h : Date.ofIso? w = some day) : w = day.iso := by
  obtain ⟨y₁, y₂, y₃, y₄, m₁, m₂, d₁, d₂, rfl, hdigits⟩ := hw
  unfold Date.ofIso? at h
  simp only at h
  split at h
  · obtain ⟨⟨day', rest⟩, htake, rfl⟩ := Option.map_eq_some_iff.mp h
    refine Date.eq_iso_of_take? (y := [y₁, y₂, y₃, y₄]) (m := [m₁, m₂]) (w := [d₁, d₂]) rfl rfl ?_
      rfl htake
    rintro s heq
    obtain ⟨rfl, -⟩ := List.cons.inj heq
    have hletter : isDigit 'W' = false := by decide
    simp [hletter] at hdigits
  · exact absurd h (by simp)

theorem dateShaped_of_mem_tokens {kind : DateKind} {w s : Text}
    (h : (kind, w) ∈ Token.date.tokens s) : Token.DateShaped w := by
  obtain ⟨before, u, rest, hscan⟩ := exists_of_mem_tokens h
  cases u with
  | nil => exact absurd hscan (by simp [Token.date])
  | cons c u =>
      obtain ⟨kind', -, hscan⟩ := Option.bind_eq_some_iff.mp hscan
      obtain ⟨⟨written, rest'⟩, hdate, heq⟩ := Option.map_eq_some_iff.mp hscan
      obtain ⟨heq, -⟩ := Prod.mk.inj heq
      obtain ⟨-, rfl⟩ := Prod.mk.inj heq
      exact (Token.takeDate?_eq_some_iff.mp hdate).2

/-- Every date that is read is the text of a date. -/
theorem exists_date_of_parseDates {s : Text} {kind : DateKind} {w : Text}
    (h : (parseDates s).get kind = some w) : ∃ day : Date, w = day.iso := by
  -- The invariant of the fold: all dates so far are texts of dates.
  have hfold : ∀ (found : List (DateKind × Text)) (dates : TaskDates),
      (∀ pair ∈ found, Token.DateShaped pair.2) →
      (∀ kind w, dates.get kind = some w → ∃ day : Date, w = day.iso) →
      ∀ kind w, (found.foldl Codec.addDate dates).get kind = some w →
        ∃ day : Date, w = day.iso := by
    intro found
    induction found with
    | nil => exact fun _ _ hdates => hdates
    | cons pair found ih =>
        intro dates hfound hdates
        refine ih _ (fun p hp => hfound p (by simp [hp])) ?_
        intro kind w hw
        rw [Codec.addDate] at hw
        split at hw
        · next hsome =>
            rw [TaskDates.get_set] at hw
            split at hw
            · obtain ⟨day, hday⟩ := Option.isSome_iff_exists.mp hsome
              rw [← Option.some.inj hw]
              exact ⟨day, eq_iso_of_dateShaped (hfound pair (by simp)) hday⟩
            · exact hdates kind w hw
        · exact hdates kind w hw
  refine hfold (Token.date.tokens s) {} ?_ ?_ kind w h
  · exact fun pair hpair => dateShaped_of_mem_tokens hpair
  · intro kind w hw
    cases kind <;> exact absurd hw (by simp [TaskDates.get])

theorem isReferenceChar_of_mem_tokens {name s : Text} (h : name ∈ Token.dependency.tokens s) :
    ∀ c ∈ name, Token.isReferenceChar c = true := by
  obtain ⟨before, u, rest, hscan⟩ := exists_of_mem_tokens h
  cases u with
  | nil => exact absurd hscan (by simp [Token.dependency])
  | cons c u =>
      rw [Token.dependency] at hscan
      split at hscan
      · split at hscan
        · exact absurd hscan (by simp)
        · obtain ⟨rfl, -⟩ := Prod.mk.inj (Option.some.inj hscan)
          exact fun c hc => List.mem_takeWhile_imp hc
      · exact absurd hscan (by simp)

theorem isTagChar_of_mem_tokens {style : TagStyle} {name s : Text}
    (h : name ∈ (Token.tag style).tokens s) : ∀ c ∈ name, Token.isTagChar c = true := by
  obtain ⟨before, u, rest, hscan⟩ := exists_of_mem_tokens h
  cases u with
  | nil => cases style <;> exact absurd hscan (by simp [Token.tag, Token.wrappedTag, Token.bareTag])
  | cons c u =>
      cases style with
      | wrapped =>
          rw [Token.tag, Token.wrappedTag] at hscan
          split at hscan
          · split at hscan
            · next t tag d rest' htag hrest =>
                split at hscan
                · obtain ⟨rfl, -⟩ := Prod.mk.inj (Option.some.inj hscan)
                  rw [← htag]
                  exact fun c hc => List.mem_takeWhile_imp hc
                · exact absurd hscan (by simp)
            · exact absurd hscan (by simp)
          · exact absurd hscan (by simp)
      | bare =>
          rw [Token.tag, Token.bareTag] at hscan
          split at hscan
          · split at hscan
            · exact absurd hscan (by simp)
            · obtain ⟨rfl, -⟩ := Prod.mk.inj (Option.some.inj hscan)
              exact fun c hc => List.mem_takeWhile_imp hc
          · exact absurd hscan (by simp)

/-! ## What is left of the content -/

theorem mem_of_mem_collapse {c : Char} {s : Text} (h : c ∈ collapse s) : c = ' ' ∨ c ∈ s := by
  cases hc : isBlank c with
  | true => exact .inl (eq_space_of_mem_collapse h hc)
  | false =>
      obtain ⟨w, hw, hmem⟩ := exists_word_of_mem h hc
      rw [words_collapse] at hw
      have hflat : c ∈ (words s).flatten := List.mem_flatten.mpr ⟨w, hw, hmem⟩
      rw [flatten_words] at hflat
      exact .inr (List.mem_filter.mp hflat).1

/-- A stripped text holds no sign of a priority. -/
theorem isPriorityMarker_of_mem_strip {style : TagStyle} {c : Char} {s : Text}
    (h : c ∈ strip style s) : isPriorityMarker c = false := by
  have hspace : isPriorityMarker ' ' = false := by decide
  rcases of_mem_blankOut h with rfl | ⟨h, -⟩
  · exact hspace
  rcases of_mem_blankOut h with rfl | ⟨h, -⟩
  · exact hspace
  rcases of_mem_blankOut h with rfl | ⟨h, -⟩
  · exact hspace
  rcases of_mem_blankOut h with rfl | ⟨-, before, rest, hnone⟩
  · exact hspace
  · cases hc : isPriorityMarker c with
    | false => rfl
    | true => exact absurd hnone (by simp [Token.priority, hc])

/-- The description is collapsed, not empty, and without signs of priorities. -/
theorem parseDescription_spec (style : TagStyle) (s : Text) :
    parseDescription style s ≠ [] ∧
      collapse (parseDescription style s) = parseDescription style s ∧
      ∀ c ∈ parseDescription style s, isPriorityMarker c = false := by
  rw [parseDescription_eq]
  split
  · exact ⟨by decide, by decide, forall_mem_of_all (by decide)⟩
  · next hne =>
      refine ⟨by simpa using hne, collapse_collapse _, fun c hc => ?_⟩
      rcases mem_of_mem_collapse hc with rfl | hc
      · decide
      · exact isPriorityMarker_of_mem_strip hc

/-- A recurrence that is read can be written again. -/
theorem writable_of_parseRecurrence {content line : Text} {r : Recurrence}
    (h : (parseRecurrence content line).1 = some r) : r.Writable := by
  cases hcut : Token.cutRecurrence? content with
  | none => exact absurd h (by simp [parseRecurrence, hcut])
  | some found =>
      obtain ⟨written, rest⟩ := found
      rw [parseRecurrence, hcut] at h
      simp only at h
      split at h
      · exact absurd h (by simp)
      · next hne =>
          obtain rfl := Option.some.inj h
          refine ⟨by simpa using hne, collapse_collapse _, fun c hc => ?_⟩
          rcases mem_of_mem_collapse hc with rfl | hc
          · decide
          -- A character of the rule is a space or was cut off the content, and signs are not.
          · rcases of_mem_blankOut hc with rfl | ⟨hc, -⟩
            · decide
            · obtain ⟨⟨before, after⟩, -, heq⟩ := Option.map_eq_some_iff.mp hcut
              obtain ⟨rfl, -⟩ := Prod.mk.inj heq
              have hrule := List.mem_takeWhile_imp hc
              simp only [Token.isRuleChar, Bool.and_eq_true, Bool.not_eq_true'] at hrule
              exact hrule.1

/-! ## Every parsed task is readable -/

/-- **A task that is read off a line is readable.** -/
theorem readable_of_parse {codec : Codec} {line id : Text} {source : Provenance} {t : Task}
    (h : codec.parse line id source = some t) : t.Readable := by
  obtain ⟨item, hitem, htask⟩ := Option.map_eq_some_iff.mp h
  obtain rfl : item.toTask codec.style line id source = t := htask
  obtain ⟨hne, hcollapse, hpriority⟩ :=
    parseDescription_spec codec.style (parseRecurrence item.content line).2
  rw [← item.toTask_description codec.style line id source] at hne hcollapse hpriority
  obtain ⟨htags, htag⟩ := nodup_distinct ((Token.tag codec.style).tokens item.content)
  obtain ⟨hdependencies, hdependency⟩ := nodup_distinct (Token.dependency.tokens item.content)
  refine ⟨?_, hne, hcollapse, hpriority, ?_, htags, ?_, hdependencies, ?_, ?_⟩
  · obtain ⟨⟨mark, content⟩, -, rfl⟩ := Option.map_eq_some_iff.mp hitem
    exact fun c hc => List.mem_takeWhile_imp hc
  · exact fun kind written hwritten => exists_date_of_parseDates hwritten
  · exact fun name hname => ⟨(htag name hname).1, isTagChar_of_mem_tokens (htag name hname).2⟩
  · exact fun name hname =>
      ⟨(hdependency name hname).1, isReferenceChar_of_mem_tokens (hdependency name hname).2⟩
  · exact fun r hr => writable_of_parseRecurrence hr

/-! ## The data model -/

theorem parsePriority_eq_high_iff {s : Text} : parsePriority s = .high ↔ '⏫' ∈ s := by
  have hhigh : s.any (Priority.high.marker? = some ·) = true ↔ '⏫' ∈ s := by
    simp [Priority.marker?]
  rw [parsePriority, ← hhigh]
  split
  · next h => simp [h]
  · next h => split <;> simp [h]

theorem parsePriority_eq_medium_iff {s : Text} :
    parsePriority s = .medium ↔ '🔼' ∈ s ∧ '⏫' ∉ s := by
  have hmedium : s.any (Priority.medium.marker? = some ·) = true ↔ '🔼' ∈ s := by
    simp [Priority.marker?]
  rw [← parsePriority_eq_high_iff, ← hmedium, parsePriority]
  split
  · simp
  · split
    · next h => simp [h]
    · next h => simp [h]

/-- What holds of every task that is read off a line with that content. -/
structure Task.InModel (content : Text) (t : Task) : Prop extends t.Readable where
  date_length : ∀ kind written, t.dates.get kind = some written → written.length = 10
  date_ascii : ∀ kind written, t.dates.get kind = some written →
    ∀ c ∈ written, c = '-' ∨ ('0' ≤ c ∧ c ≤ '9')
  high_iff : t.priority = .high ↔ '⏫' ∈ content
  medium_iff : t.priority = .medium ↔ '🔼' ∈ content ∧ '⏫' ∉ content

/-- **Every task that is read off a line is in the data model.** -/
theorem inModel_of_parse {codec : Codec} {line id : Text} {source : Provenance} {t : Task}
    (h : codec.parse line id source = some t) :
    ∃ item, Item.ofLine? line = some item ∧ t.InModel item.content := by
  have hreadable := readable_of_parse h
  obtain ⟨item, hitem, rfl⟩ := Option.map_eq_some_iff.mp h
  refine ⟨item, hitem, hreadable, ?_, ?_, parsePriority_eq_high_iff, parsePriority_eq_medium_iff⟩
  · intro kind written hwritten
    obtain ⟨day, rfl⟩ := hreadable.date kind written hwritten
    exact day.length_iso
  · intro kind written hwritten
    obtain ⟨day, rfl⟩ := hreadable.date kind written hwritten
    exact Date.forall_mem_iso (.inl rfl) (by decide) day

/-- A medium task with a datum of every sort, one of its dates in no calendar. -/
def payRent : Text :=
  "* [/] 🔼 Pay rent 📅2024-02-29 🛫 2023-02-29 🔁 every month #home/flat# ⛔salary".toList

/-- The line with a datum of every sort is read as a task in the model. -/
theorem inModel_of_parse_payRent :
    ∃ t, (Codec.mk .wrapped Date.first).parse payRent [] {} = some t ∧
    ∃ item, Item.ofLine? payRent = some item ∧ t.InModel item.content := by
  have hread : ((Codec.mk .wrapped Date.first).parse payRent [] {}).isSome = true := by
    decide +kernel
  obtain ⟨t, ht⟩ := Option.isSome_iff_exists.mp hread
  exact ⟨t, ht, inModel_of_parse ht⟩

end Checklist
