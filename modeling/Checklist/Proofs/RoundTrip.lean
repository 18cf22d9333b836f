import Checklist.Task.Lifecycle
import Checklist.Proofs.ParsedTask
import Checklist.Proofs.Rereading

/-!
# Round trips — writing a task and reading its line

A task that is `WellFormed` is faithful, so its line is read as the task itself, whatever the clock
says (`parse_format_of_wellFormed`). A task that was read off a line is readable but need not be
faithful: text that a token kept apart can come together when the token is taken out, and a second
recurrence changes places with the first. `reread_iff_faithful` says exactly which of the lines that
are read keep their meaning when they are written anew.
-/

namespace Checklist

open Text Scanner

/-- Whether a task says nothing twice: its description holds none of its data, and its dates, tags,
dependencies and recurrence are in the shape in which they are read. -/
structure Task.WellFormed (style : TagStyle) (t : Task) : Prop extends t.Readable where
  no_recurrence : Marker.recurrence ∉ t.description
  no_date : Token.date.finds t.description = false
  no_tag : (Token.tag style).finds t.description = false
  no_dependency : Token.dependency.finds t.description = false
  done_iff : t.dates.done.isSome ↔ t.status = .done
  rule : ∀ r, t.recurrence = some r → Token.whenDone.finds r.rule = false
  fromDone : ∀ r, t.recurrence = some r → r.fromDone = false →
    Token.whenDone.finds t.description = false

variable {codec : Codec} {t : Task}

theorem Task.WellFormed.faithful {style : TagStyle} (h : t.WellFormed style) :
    t.Faithful style where
  no_date := h.no_date
  no_tag := h.no_tag
  no_dependency := h.no_dependency
  copies := by
    refine ⟨words t.description, 0, ?_, by simp⟩
    intro w hw hmem
    have hflat : Marker.recurrence ∈ (words t.description).flatten :=
      List.mem_flatten.mpr ⟨w, hw, hmem⟩
    rw [flatten_words] at hflat
    exact h.no_recurrence (List.mem_filter.mp hflat).1
  rule := h.rule
  fromDone := h.fromDone

/-- The completion date of a task is written when the task is done, and is its own. -/
theorem asWritten_of_wellFormed (h : t.WellFormed codec.style) : codec.asWritten t = t := by
  have hdone : (if t.status = .done then some (codec.completionDate t) else none) =
      t.dates.done := by
    split
    · next hstatus =>
        obtain ⟨written, hwritten⟩ := Option.isSome_iff_exists.mp (h.done_iff.mpr hstatus)
        obtain ⟨day, rfl⟩ := h.date .done written hwritten
        rw [hwritten, Codec.completionDate, hwritten]
        cases hiso : day.iso with
        | nil => exact absurd hiso (Codec.iso_ne_nil day)
        | cons c s => rfl
    · next hstatus =>
        cases hwritten : t.dates.done with
        | none => rfl
        | some written => exact absurd (h.done_iff.mp (by rw [hwritten]; rfl)) hstatus
  rw [Codec.asWritten, hdone]

/-- The line of a well-formed task is read as the task, with the line as its source. -/
theorem parse_format_of_wellFormed (h : t.WellFormed codec.style) :
    codec.parse (codec.format t) t.id t.provenance = some (t.rendered codec) := by
  rw [Codec.parse_format_of_faithful h.toReadable h.faithful, asWritten_of_wellFormed h]
  rfl

/-- **Round trip of the codec.** In both tag styles and on every day, the line that is written for a
well-formed task is read, and as a task that says the same. -/
theorem exists_equivalent_of_wellFormed (codec : Codec) {t : Task} (h : t.WellFormed codec.style) :
    ∃ u, codec.parse (codec.format t) t.id t.provenance = some u ∧ u.Equivalent t :=
  ⟨t.rendered codec, parse_format_of_wellFormed h, rfl⟩

/-- The first day of 2024. -/
def newYear : Date := ⟨2024, 1, 1, by decide⟩

/-- A done task with a datum of every sort. -/
def waterPlants : Task where
  id := "plants".toList
  description := "Water the plants".toList
  status := .done
  priority := .high
  dates := { due := some newYear.iso, done := some newYear.iso }
  tags := ["home".toList]
  dependencies := ["buy-soil".toList]
  recurrence := some ⟨"every week".toList, true⟩
  indent := "  ".toList

/-- The task with a datum of every sort is well-formed, and so it is read back. -/
theorem exists_equivalent_waterPlants : waterPlants.WellFormed .bare ∧
    ∃ u, Codec.parse ⟨.bare, newYear⟩ (Codec.format ⟨.bare, newYear⟩ waterPlants) waterPlants.id
      waterPlants.provenance = some u ∧ u.Equivalent waterPlants := by
  have hdate : ∀ kind written, waterPlants.dates.get kind = some written →
      ∃ day : Date, written = day.iso := by
    intro kind written h
    cases kind with
    | due => exact ⟨newYear, (Option.some.inj h).symm⟩
    | done => exact ⟨newYear, (Option.some.inj h).symm⟩
    | start => exact absurd h (Option.some_ne_none written).symm
    | scheduled => exact absurd h (Option.some_ne_none written).symm
    | cancelled => exact absurd h (Option.some_ne_none written).symm
  have hrec : ∀ r, waterPlants.recurrence = some r → r = ⟨"every week".toList, true⟩ :=
    fun r h => (Option.some.inj h).symm
  have hwritable : ∀ r, waterPlants.recurrence = some r → r.Writable := by
    intro r h
    rw [hrec r h]
    exact ⟨by decide, by decide, forall_mem_of_all (by decide)⟩
  have htag : ∀ name ∈ waterPlants.tags, name ≠ [] ∧ ∀ c ∈ name, Token.isTagChar c = true := by
    intro name hname
    rw [List.mem_singleton.mp hname]
    exact ⟨by decide, forall_mem_of_all (by decide +kernel)⟩
  have hdependency : ∀ name ∈ waterPlants.dependencies,
      name ≠ [] ∧ ∀ c ∈ name, Token.isReferenceChar c = true := by
    intro name hname
    rw [List.mem_singleton.mp hname]
    exact ⟨by decide, forall_mem_of_all (by decide +kernel)⟩
  have hwell : waterPlants.WellFormed .bare := by
    have hreadable : waterPlants.Readable :=
      ⟨forall_mem_of_all (by decide), by decide, by decide, forall_mem_of_all (by decide), hdate,
        by decide, htag, by decide, hdependency, hwritable⟩
    refine ⟨hreadable, by decide, by decide, by decide, by decide, by decide, ?_, ?_⟩
    · intro r h
      rw [hrec r h]
      decide
    · intro r h hfalse
      rw [hrec r h] at hfalse
      exact Bool.noConfusion hfalse
  exact ⟨hwell, exists_equivalent_of_wellFormed ⟨.bare, newYear⟩ hwell⟩

/-- **Rewriting a line.** The line of a task that was read off a line is read as a task that says
the same, with the completion date that was written, exactly when the task is faithful. -/
theorem reread_iff_faithful {line id : Text} {source : Provenance}
    (h : codec.parse line id source = some t) :
    (∃ u, codec.parse (codec.format t) t.id t.provenance = some u ∧
      u.Equivalent (codec.asWritten t)) ↔ t.Faithful codec.style :=
  Codec.parse_format_iff (readable_of_parse h)

/-- A done task that was read without a date is read with the day of the rewriting. -/
theorem reread_iff_faithful_rest :
    (Codec.mk .bare newYear).parse "- [x] Rest".toList [] {} =
        some { id := [], description := "Rest".toList, status := .done,
               sourceText := "- [x] Rest".toList } ∧
      ((∃ u, (Codec.mk .bare newYear).parse "- [x] Rest ✅ 2024-01-01".toList [] {} = some u ∧
        u.Equivalent { id := [], description := "Rest".toList, status := .done,
                       dates := { done := some newYear.iso } }) ↔
      Task.Faithful .bare { id := [], description := "Rest".toList, status := .done,
                            sourceText := "- [x] Rest".toList }) := by
  have hparse : (Codec.mk .bare newYear).parse "- [x] Rest".toList [] {} =
      some { id := [], description := "Rest".toList, status := .done,
             sourceText := "- [x] Rest".toList } := by decide +kernel
  exact ⟨hparse, reread_iff_faithful hparse⟩

/-- Two recurrences in one line change places whenever the line is written anew. -/
theorem not_reread_two_recurrences : ∃ t,
    (Codec.mk .bare newYear).parse "- [ ] x 🔁 a 🔁 b".toList [] {} = some t ∧
      ¬∃ u, (Codec.mk .bare newYear).parse ((Codec.mk .bare newYear).format t) t.id t.provenance =
          some u ∧ u.Equivalent ((Codec.mk .bare newYear).asWritten t) := by
  refine ⟨{ id := [], description := "x 🔁 b".toList, recurrence := some ⟨"a".toList, false⟩,
            sourceText := "- [ ] x 🔁 a 🔁 b".toList }, by decide +kernel, ?_⟩
  rintro ⟨u, hparse, hequiv⟩
  have hnone : ((Codec.mk .bare newYear).parse "- [ ] x 🔁 b 🔁 a".toList [] {}).any
      (fun u => decide (u.Equivalent
        { id := [], description := "x 🔁 b".toList, recurrence := some ⟨"a".toList, false⟩ })) =
      false := by decide +kernel
  have hread : (Codec.mk .bare newYear).parse "- [ ] x 🔁 b 🔁 a".toList [] {} = some u := hparse
  rw [hread] at hnone
  exact absurd hequiv (of_decide_eq_false hnone)

end Checklist
