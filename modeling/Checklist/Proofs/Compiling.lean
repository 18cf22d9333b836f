import Mathlib.Data.List.Forall2
import Checklist.Proofs.Directives
import Checklist.Query.Compile

/-!
# Compiling — what each part of a query contributes

A query is compiled from its parts (`compileParts`), so parts that are read in the same way can
stand for each other (`compileParts_congr`). A directive sets the field of its own keyword and
nothing else (`Keyword.patch_eq_put`). Among parts of which no other one carries a keyword, a
directive with that keyword decides its field alone, and can be exchanged for another one or taken
out without a change to any other field (`Slot.exchange`).
-/

namespace Checklist

open Text

/-- The specification that the parts of a query set together. -/
def compileParts (today : Date) (parts : List Text) : Except DateOverflow Spec :=
  (mergePatches today parts).map fun spec => { spec with freeText := freeText? parts }

/-- A query is compiled part by part. -/
theorem compileQuery_eq (q : Text) (today : Date) :
    compileQuery q today = compileParts today (splitQuery q) := rfl

/-- Parts have a compilation when all their directives do, and the text to look for is added to it.
-/
theorem compileParts_eq_ok_iff {today : Date} {parts : List Text} {spec : Spec} :
    compileParts today parts = .ok spec ↔
      ∃ merged, mergePatches today parts = .ok merged ∧
        spec = { merged with freeText := freeText? parts } := by
  unfold compileParts
  cases mergePatches today parts with
  | error e => simp [Except.map]
  | ok merged => simp [Except.map, eq_comm]

/-- The text to look for depends on the parts that are no directives. -/
theorem freeText_of_compileParts {today : Date} {parts : List Text} {spec : Spec}
    (h : compileParts today parts = .ok spec) : spec.freeText = freeText? parts := by
  obtain ⟨merged, -, rfl⟩ := compileParts_eq_ok_iff.mp h
  rfl

/-! ## Parts that are read alike -/

/-- Both texts are the same directive, or the same text that is none. -/
def SameReading (p r : Text) : Prop :=
  matchDirective p = matchDirective r ∧ (matchDirective p = none → p = r)

/-- A part is read as it is read. -/
theorem SameReading.refl (p : Text) : SameReading p p := ⟨rfl, fun _ => rfl⟩

/-- The heading of a query is no directive. -/
theorem matchDirective_of_heading {p : Text} (h : lower p = queryHeading) :
    matchDirective p = none := by
  rw [matchDirective_eq_none_iff, h]
  intro k
  cases k <;> decide

/-- Parts that are read alike are both headings, or neither is. -/
theorem SameReading.heading {p r : Text} (h : SameReading p r) :
    lower p = queryHeading ↔ lower r = queryHeading := by
  constructor
  · intro hp
    rw [← h.2 (matchDirective_of_heading hp), hp]
  · intro hr
    have hnone : matchDirective p = none := h.1.trans (matchDirective_of_heading hr)
    rw [h.2 hnone, hr]

/-- Whether the part is a text to look for. -/
def isFree (p : Text) : Bool := (matchDirective p).isNone

/-- A text to look for is no directive. -/
theorem isFree_iff {p : Text} : isFree p = true ↔ matchDirective p = none :=
  Option.isNone_iff_eq_none

/-- A text to look for is seen in what there is to look for. -/
theorem freeText?_cons_ne {p : Text} (hp : matchDirective p = none) (ps : List Text) :
    freeText? (p :: ps) ≠ freeText? ps := by
  have hcons : freeText? (p :: ps) = some (joinWith [' '] (p :: ps.filter isFree)) := by
    show (unlessEmpty ((p :: ps).filter isFree)).map _ = _
    rw [List.filter_cons_of_pos (isFree_iff.mpr hp)]
    rfl
  intro heq
  rw [hcons] at heq
  change _ = (unlessEmpty (ps.filter isFree)).map _ at heq
  cases hfree : ps.filter isFree with
  | nil =>
      rw [hfree] at heq
      exact absurd heq (by simp [unlessEmpty])
  | cons r rs =>
      rw [hfree, joinWith_cons (List.cons_ne_nil r rs)] at heq
      have hlength := congrArg List.length (Option.some.inj heq)
      simp only [List.length_append, List.length_singleton] at hlength
      omega

/-- Parts that are read alike have the same compilation. -/
theorem compileParts_congr (today : Date) {ps rs : List Text} (h : List.Forall₂ SameReading ps rs) :
    compileParts today ps = compileParts today rs := by
  have hmerge : mergePatches today ps = mergePatches today rs := by
    induction h with
    | nil => rfl
    | cons hpr _ ih => rw [mergePatches, mergePatches, ih, partPatch, partPatch, hpr.1]
  have hfree : ps.filter isFree = rs.filter isFree := by
    clear hmerge
    induction h with
    | nil => rfl
    | @cons p r ps rs hpr _ ih =>
        by_cases hp : matchDirective p = none
        · have hr : matchDirective r = none := hpr.1 ▸ hp
          rw [List.filter_cons_of_pos (isFree_iff.mpr hp),
            List.filter_cons_of_pos (isFree_iff.mpr hr), hpr.2 hp, ih]
        · have hr : matchDirective r ≠ none := hpr.1 ▸ hp
          rw [List.filter_cons_of_neg (fun hfree => hp (isFree_iff.mp hfree)),
            List.filter_cons_of_neg (fun hfree => hr (isFree_iff.mp hfree)), ih]
  have htext : freeText? ps = freeText? rs := congrArg
    (fun free => (unlessEmpty free).map (joinWith [' '])) hfree
  rw [compileParts, compileParts, hmerge, htext]

/-- A heading is left out in the same place. -/
theorem SameReading.dropHeading {ps rs : List Text} (h : List.Forall₂ SameReading ps rs) :
    List.Forall₂ SameReading (dropHeading ps) (dropHeading rs) := by
  cases h with
  | nil => exact .nil
  | @cons p r ps rs hpr hrest =>
      rw [Checklist.dropHeading, Checklist.dropHeading]
      by_cases hp : lower p = queryHeading
      · rw [if_pos hp, if_pos (hpr.heading.mp hp)]
        exact hrest
      · rw [if_neg hp, if_neg (fun hr => hp (hpr.heading.mpr hr))]
        exact .cons hpr hrest

/-! ## Fields -/

namespace Spec

/-- The specification with the field of the keyword as another one sets it. -/
def put (spec : Spec) (k : Keyword) (source : Spec) : Spec :=
  match k with
  | .status => { spec with statusIn := source.statusIn }
  | .priority => { spec with priorityIn := source.priorityIn }
  | .due => { spec with dueWindow := source.dueWindow }
  | .starts => { spec with startsWindow := source.startsWindow }
  | .tag => { spec with tagsInclude := source.tagsInclude }
  | .excludedTag => { spec with tagsExclude := source.tagsExclude }
  | .path => { spec with pathGlob := source.pathGlob }
  | .limit => { spec with limit := source.limit }
  | .sort => { spec with sort := source.sort }

/-- Whether the field of the keyword is not set. -/
def Unset (k : Keyword) (spec : Spec) : Prop := spec.put k .empty = spec

/-- An empty query sets no field. -/
theorem unset_empty (k : Keyword) : Unset k .empty := by cases k <;> rfl

/-- A field that is set in neither of two queries is not set in their merge. -/
theorem Unset.merge {k : Keyword} {a b : Spec} (ha : Unset k a) (hb : Unset k b) :
    Unset k (a.merge b) := by
  have hput : (a.merge b).put k .empty = (a.put k .empty).merge (b.put k .empty) := by
    cases k <;> simp [put, empty, Spec.merge]
  rw [Unset, hput, ha, hb]

/-- Between specifications that leave its field alone, one that sets nothing else sets just that. -/
theorem merge_put_merge {k : Keyword} {a b : Spec} (ha : Unset k a) (hb : Unset k b)
    (source : Spec) : a.merge ((empty.put k source).merge b) = (a.merge b).put k source := by
  have hput : (a.put k .empty).merge ((empty.put k source).merge (b.put k .empty)) =
      (a.merge b).put k source := by
    cases k <;> simp [put, empty, Spec.merge]
  rwa [ha, hb] at hput

/-- The text to look for is no field of a keyword. -/
theorem put_freeText (spec : Spec) (k : Keyword) (source : Spec) (text : Option Text) :
    { spec with freeText := text }.put k source =
      { spec.put k source with freeText := text } := by
  cases k <;> rfl

/-- The last value of a field counts. -/
theorem put_put (spec : Spec) (k : Keyword) (source other : Spec) :
    (spec.put k source).put k other = spec.put k other := by
  cases k <;> rfl

end Spec

/-- A directive sets the field of its keyword and nothing else. -/
theorem Keyword.patch_eq_put {k : Keyword} {value : Text} {today : Date} {patch : Spec}
    (h : k.patch value today = .ok patch) : Spec.empty.put k patch = patch := by
  have hdate : ∀ {f : Option DateWindow → Spec} {r : Except DateOverflow (Option DateWindow)},
      r.map f = .ok patch → ∃ w, patch = f w := by
    intro f r hr
    cases r with
    | error e => exact absurd hr (by simp [Except.map])
    | ok w => exact ⟨w, (Except.ok.inj hr).symm⟩
  cases k with
  | due =>
      obtain ⟨w, rfl⟩ := hdate h
      rfl
  | starts =>
      obtain ⟨w, rfl⟩ := hdate h
      rfl
  | _ =>
      obtain rfl := Except.ok.inj h
      rfl

/-- A directive leaves the fields of other keywords alone. -/
theorem unset_partPatch {k : Keyword} {today : Date} {part : Text} {patch : Spec}
    (hkey : keyOf part ≠ some k) (h : partPatch today part = .ok patch) : Spec.Unset k patch := by
  unfold partPatch at h
  cases hpart : matchDirective part with
  | none =>
      simp only [hpart] at h
      obtain rfl := Except.ok.inj h
      exact Spec.unset_empty k
  | some directive =>
      obtain ⟨l, value⟩ := directive
      simp only [hpart] at h
      have hl : l ≠ k := by
        rintro rfl
        exact hkey (by simp [keyOf, hpart])
      rw [← Keyword.patch_eq_put h]
      cases l <;> cases k <;> first | exact absurd rfl hl | rfl

/-! ## Parts in a row -/

variable {today : Date} {ps rs : List Text}

/-- The first part is merged in front of the others. -/
theorem mergePatches_cons_eq_ok_iff {p : Text} {spec : Spec} :
    mergePatches today (p :: ps) = .ok spec ↔
      ∃ a b, partPatch today p = .ok a ∧ mergePatches today ps = .ok b ∧ spec = a.merge b := by
  rw [mergePatches]
  cases partPatch today p with
  | error e => simp [bind, Except.bind]
  | ok a =>
      cases mergePatches today ps with
      | error e => simp [bind, Except.bind]
      | ok b => simp [bind, Except.bind, eq_comm]

/-- What a row of parts sets is what its two pieces set, merged. -/
theorem mergePatches_append (today : Date) (ps rs : List Text) :
    mergePatches today (ps ++ rs) = (do
      let a ← mergePatches today ps
      let b ← mergePatches today rs
      .ok (a.merge b)) := by
  induction ps with
  | nil =>
      cases h : mergePatches today rs with
      | error e => simp [mergePatches, h, bind, Except.bind]
      | ok b => simp [mergePatches, h, bind, Except.bind, Spec.empty_merge]
  | cons p ps ih =>
      rw [List.cons_append, mergePatches, ih, mergePatches]
      cases partPatch today p with
      | error e => rfl
      | ok a =>
          cases mergePatches today ps with
          | error e => rfl
          | ok b =>
              cases mergePatches today rs with
              | error e => rfl
              | ok c => exact congrArg Except.ok (Spec.merge_assoc a b c).symm

/-- Two rows of parts can be compiled one by one and merged. -/
theorem mergePatches_append_eq_ok_iff {spec : Spec} :
    mergePatches today (ps ++ rs) = .ok spec ↔
      ∃ a b, mergePatches today ps = .ok a ∧ mergePatches today rs = .ok b ∧
        spec = a.merge b := by
  rw [mergePatches_append]
  cases mergePatches today ps with
  | error e => simp [bind, Except.bind]
  | ok a =>
      cases mergePatches today rs with
      | error e => simp [bind, Except.bind]
      | ok b => simp [bind, Except.bind, eq_comm]

/-- A field is not set when no part carries its keyword. -/
theorem unset_mergePatches {k : Keyword} {spec : Spec} (hkeys : ∀ p ∈ ps, keyOf p ≠ some k)
    (h : mergePatches today ps = .ok spec) : Spec.Unset k spec := by
  induction ps generalizing spec with
  | nil =>
      obtain rfl := Except.ok.inj h
      exact Spec.unset_empty k
  | cons p ps ih =>
      obtain ⟨a, b, ha, hb, rfl⟩ := mergePatches_cons_eq_ok_iff.mp h
      exact (unset_partPatch (hkeys p (by simp)) ha).merge
        (ih (fun q hq => hkeys q (List.mem_cons_of_mem p hq)) hb)

/-- At most one part, a directive with the keyword that sets its field as `patch` has it. -/
inductive Slot (today : Date) (k : Keyword) : List Text → Spec → Prop where
  | vacant : Slot today k [] .empty
  | filled {part value : Text} {patch : Spec} (hpart : matchDirective part = some (k, value))
      (hpatch : k.patch value today = .ok patch) : Slot today k [part] patch

namespace Slot

variable {k : Keyword} {mid : List Text} {patch : Spec}

/-- What stands in a slot compiles to its patch. -/
theorem mergePatches_eq (h : Slot today k mid patch) : mergePatches today mid = .ok patch := by
  cases h with
  | vacant => rfl
  | filled hpart hpatch =>
      rw [mergePatches_cons_eq_ok_iff]
      refine ⟨patch, .empty, ?_, rfl, (Spec.merge_empty patch).symm⟩
      rw [partPatch, hpart]
      exact hpatch

/-- The patch of a slot sets the field of its keyword only. -/
theorem eq_put (h : Slot today k mid patch) : Spec.empty.put k patch = patch := by
  cases h with
  | vacant => exact Spec.unset_empty k
  | filled _ hpatch => exact Keyword.patch_eq_put hpatch

/-- What stands in a slot is no text to look for. -/
theorem not_isFree (h : Slot today k mid patch) : ∀ p ∈ mid, ¬ isFree p = true := by
  cases h with
  | vacant => simp
  | filled hpart _ => simp [isFree, hpart]

/-- So it does not change the text to look for. -/
theorem freeText?_append (h : Slot today k mid patch) (pre post : List Text) :
    freeText? (pre ++ mid ++ post) = freeText? (pre ++ post) := by
  have hmid : mid.filter isFree = [] := List.filter_eq_nil_iff.mpr h.not_isFree
  have hfree : (pre ++ mid ++ post).filter isFree = (pre ++ post).filter isFree := by
    rw [List.filter_append, List.filter_append, hmid, List.append_nil, List.filter_append]
  exact congrArg (fun free => (unlessEmpty free).map (joinWith [' '])) hfree

/-- A slot in a query decides the field of its keyword and nothing else. -/
theorem compileParts_eq (h : Slot today k mid patch) {pre post : List Text}
    (hkeys : ∀ p ∈ pre ++ post, keyOf p ≠ some k) {a b : Spec}
    (ha : mergePatches today pre = .ok a) (hb : mergePatches today post = .ok b) :
    compileParts today (pre ++ mid ++ post) =
      .ok ({ a.merge b with freeText := freeText? (pre ++ post) }.put k patch) := by
  have hua : Spec.Unset k a :=
    unset_mergePatches (fun p hp => hkeys p (List.mem_append_left post hp)) ha
  have hub : Spec.Unset k b :=
    unset_mergePatches (fun p hp => hkeys p (List.mem_append_right pre hp)) hb
  have hmerge : mergePatches today (pre ++ mid ++ post) = .ok ((a.merge b).put k patch) := by
    rw [List.append_assoc, mergePatches_append_eq_ok_iff]
    refine ⟨a, patch.merge b, ha,
      mergePatches_append_eq_ok_iff.mpr ⟨patch, b, h.mergePatches_eq, hb, rfl⟩, ?_⟩
    rw [← Spec.merge_put_merge hua hub, h.eq_put]
  rw [compileParts_eq_ok_iff]
  exact ⟨_, hmerge, by rw [h.freeText?_append, Spec.put_freeText]⟩

/-- Exchanging what stands in a slot changes the field of its keyword and nothing else. -/
theorem exchange {mid' : List Text} {patch' : Spec} (h : Slot today k mid patch)
    (h' : Slot today k mid' patch') {pre post : List Text}
    (hkeys : ∀ p ∈ pre ++ post, keyOf p ≠ some k) {spec : Spec}
    (hspec : compileParts today (pre ++ mid ++ post) = .ok spec) :
    compileParts today (pre ++ mid' ++ post) = .ok (spec.put k patch') := by
  obtain ⟨merged, hmerged, -⟩ := compileParts_eq_ok_iff.mp hspec
  rw [List.append_assoc, mergePatches_append_eq_ok_iff] at hmerged
  obtain ⟨a, c, ha, hc, -⟩ := hmerged
  obtain ⟨_, b, -, hb, -⟩ := mergePatches_append_eq_ok_iff.mp hc
  rw [h.compileParts_eq hkeys ha hb] at hspec
  obtain rfl := Except.ok.inj hspec
  rw [h'.compileParts_eq hkeys ha hb, Spec.put_put]

end Slot

/-- What is left out is the first part or nothing. -/
theorem dropHeading_append_of_ne_nil (h : ps ≠ []) (rs : List Text) :
    dropHeading (ps ++ rs) = dropHeading ps ++ rs := by
  cases ps with
  | nil => exact absurd rfl h
  | cons p ps =>
      rw [List.cons_append, dropHeading, dropHeading]
      split <;> rfl

/-- No directive is a heading, so what is left out stands before the directives or is nothing. -/
theorem dropHeading_append {mid : List Text} (hmid : ∀ p ∈ mid, ¬ isFree p = true) (pre : List Text)
    {post : List Text} (hpost : mid = [] → post = []) :
    dropHeading (pre ++ mid ++ post) = dropHeading pre ++ mid ++ post := by
  by_cases hpre : pre = []
  · subst hpre
    cases mid with
    | nil =>
        rw [hpost rfl]
        rfl
    | cons p mid =>
        have hheading : lower p ≠ queryHeading := fun hlower =>
          hmid p List.mem_cons_self (isFree_iff.mpr (matchDirective_of_heading hlower))
        exact if_neg hheading
  · rw [List.append_assoc, dropHeading_append_of_ne_nil hpre, List.append_assoc]

/-- Dropping the heading adds no part. -/
theorem mem_of_mem_dropHeading {p : Text} (h : p ∈ dropHeading ps) : p ∈ ps := by
  cases ps with
  | nil => exact h
  | cons r ps =>
      rw [dropHeading] at h
      split at h
      · exact List.mem_cons_of_mem r h
      · exact h

/-- In a query that is compiled, a directive has found its value to be of use or of none. -/
theorem exists_slot_of_compileParts {k : Keyword} {part value : Text} {spec : Spec}
    (hpart : matchDirective part = some (k, value))
    (hspec : compileParts today (ps ++ [part] ++ rs) = .ok spec) :
    ∃ patch, Slot today k [part] patch := by
  obtain ⟨merged, hmerged, -⟩ := compileParts_eq_ok_iff.mp hspec
  rw [List.append_assoc, mergePatches_append_eq_ok_iff] at hmerged
  obtain ⟨_, _, -, hrest, -⟩ := hmerged
  obtain ⟨patch, _, hpatch, -, -⟩ := mergePatches_cons_eq_ok_iff.mp hrest
  rw [partPatch, hpart] at hpatch
  exact ⟨patch, .filled hpart hpatch⟩

end Checklist
