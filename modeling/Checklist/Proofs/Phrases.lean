import Checklist.Proofs.TokenEnds

/-!
# Phrases — the words "when done" as the end of one word and the start of the next

The phrase stands in a text where a word ends in the letters of "when" and the next one begins with
those of "done", for nothing but blanks may stand between them (`finds_whenDone_iff`,
`finds_whenDone`). So what is left when the phrases are blanked out can be told from the words alone
(`words_blankOut_whenDone`): the walk over the text is a walk over its words, in which a phrase
leaves the start of the one word and goes on with the rest of the other (`piecesFrom_of_phrase`),
and everything else is passed over (`piecesFrom_of_no_phrase`).
-/

namespace Checklist

open Text Scanner

namespace Token

/-! ## The two ends of a phrase -/

/-- What stands in the word before the letters of "when", if these end the word. -/
def beforeWhen? (w : Text) : Option Text :=
  let p := w.take (w.length - "when".length)
  if Spells "when".toList (w.drop (w.length - "when".length)) ∧ p.getLast?.any isWord = false then
    some p
  else none

/-- What stands in the word behind the letters of "done", if these begin the word. -/
def behindDone? (w : Text) : Option Text :=
  (takeLetters? "done".toList w).filter fun q => !q.head?.any isWord

theorem beforeWhen?_eq_some_iff {w p : Text} :
    beforeWhen? w = some p ↔
      ∃ l, w = p ++ l ∧ Spells "when".toList l ∧ p.getLast?.any isWord = false := by
  unfold beforeWhen?
  dsimp only
  constructor
  · intro h
    split at h
    · next hcut =>
        obtain rfl := Option.some.inj h
        exact ⟨_, (List.take_append_drop _ w).symm, hcut.1, hcut.2⟩
    · exact absurd h.symm (Option.some_ne_none p)
  · rintro ⟨l, rfl, hl, hp⟩
    have hcut : (p ++ l).length - "when".length = p.length := by
      rw [List.length_append, hl.length_eq]
      exact Nat.add_sub_cancel _ _
    simp only [hcut, List.take_left, List.drop_left]
    exact if_pos ⟨hl, hp⟩

theorem behindDone?_eq_some_iff {w q : Text} :
    behindDone? w = some q ↔
      ∃ l, w = l ++ q ∧ Spells "done".toList l ∧ q.head?.any isWord = false := by
  rw [behindDone?, Option.filter_eq_some_iff, takeLetters?_eq_some_iff]
  constructor
  · rintro ⟨⟨l, hl, rfl⟩, hq⟩
    exact ⟨l, rfl, hl, by simpa using hq⟩
  · rintro ⟨l, rfl, hl, hq⟩
    exact ⟨⟨l, hl, rfl⟩, by simpa using hq⟩

/-- Whether a phrase can begin in the word. -/
def opens (w : Text) : Bool := (beforeWhen? w).isSome

/-- Whether a phrase can end in the word. -/
def closes (w : Text) : Bool := (behindDone? w).isSome

/-! ## Scanning over a word -/

/-- Nothing of a word goes on behind it. -/
def EndsWord (t : Text) : Prop := ∀ c, t.head? = some c → isBlank c = true

/-- A gap, the word behind it, and what goes on behind that. -/
structure NextWord (gap w t : Text) : Prop where
  gap_ne_nil : gap ≠ []
  gap_blank : ∀ c ∈ gap, isBlank c = true
  word_ne_nil : w ≠ []
  word_filled : ∀ c ∈ w, isBlank c = false
  ends : EndsWord t

theorem NextWord.endsWord {gap w t : Text} (h : NextWord gap w t) : EndsWord (gap ++ (w ++ t)) := by
  intro c hc
  rw [List.head?_append_of_ne_nil _ h.gap_ne_nil] at hc
  exact h.gap_blank c (List.mem_of_head? hc)

theorem NextWord.trimStart_eq {gap w t : Text} (h : NextWord gap w t) :
    trimStart (gap ++ (w ++ t)) = w ++ t := by
  rw [trimStart_append_of_blank h.gap_blank]
  obtain ⟨c, w', rfl⟩ := List.exists_cons_of_ne_nil h.word_ne_nil
  exact trimStart_cons_of_not_blank (h.word_filled c List.mem_cons_self) _

/-- A text behind a word is blank, or it is a gap, a word, and a text behind that. -/
theorem words_induction {P : (t : Text) → EndsWord t → Prop}
    (blank : ∀ t (ht : ∀ c ∈ t, isBlank c = true), P t fun c hc => ht c (List.mem_of_head? hc))
    (word : ∀ gap w t (hnext : NextWord gap w t), P t hnext.ends →
      P (gap ++ (w ++ t)) hnext.endsWord)
    (t : Text) (ht : EndsWord t) : P t ht := by
  by_cases hblank : ∀ c ∈ t, isBlank c = true
  · exact blank t hblank
  · have hrest : t.dropWhile isBlank ≠ [] := fun hnil =>
      hblank (List.dropWhile_eq_nil_iff.mp hnil)
    have hgap : t.takeWhile isBlank ≠ [] := by
      cases t with
      | nil => exact absurd rfl hrest
      | cons c t =>
          rw [List.takeWhile_cons_of_pos (ht c rfl)]
          exact List.cons_ne_nil _ _
    have hword : (t.dropWhile isBlank).takeWhile (!isBlank ·) ≠ [] := by
      obtain ⟨c, u, hu⟩ := List.exists_cons_of_ne_nil hrest
      have hc : isBlank c = false := head_dropWhile (s := t) (by rw [hu]; rfl)
      rw [hu, List.takeWhile_cons_of_pos (by simp [hc])]
      exact List.cons_ne_nil _ _
    have hnext : NextWord (t.takeWhile isBlank) ((t.dropWhile isBlank).takeWhile (!isBlank ·))
        ((t.dropWhile isBlank).dropWhile (!isBlank ·)) := by
      refine ⟨hgap, fun c hc => List.mem_takeWhile_imp hc, hword, fun c hc => ?_, fun c hc => ?_⟩
      · simpa using List.mem_takeWhile_imp hc
      · simpa using head_dropWhile hc
    -- The gap is not empty, so what is behind the word is shorter than the text.
    have hshorter : ((t.dropWhile isBlank).dropWhile (!isBlank ·)).length < t.length := by
      have hlength := congrArg List.length (List.takeWhile_append_dropWhile (p := isBlank) (l := t))
      have hdrop := length_dropWhile_le (!isBlank ·) (t.dropWhile isBlank)
      have hpos := List.length_pos_iff.mpr hgap
      rw [List.length_append] at hlength
      omega
    have hsplit : t = t.takeWhile isBlank ++ ((t.dropWhile isBlank).takeWhile (!isBlank ·) ++
        (t.dropWhile isBlank).dropWhile (!isBlank ·)) := by
      rw [List.takeWhile_append_dropWhile, List.takeWhile_append_dropWhile]
    have hP := word _ _ _ hnext (words_induction blank word _ hnext.ends)
    simpa only [← hsplit] using hP
termination_by t.length

/-- Letters are not looked for behind a word. -/
theorem takeLetters?_append_of_endsWord {word t : Text} (ht : EndsWord t)
    (hword : ∀ l ∈ word, isBlank l = false ∧ isBlank l.toUpper = false) (s : Text) :
    takeLetters? word (s ++ t) = (takeLetters? word s).map (· ++ t) := by
  cases t with
  | nil => simp
  | cons d t =>
      refine takeLetters?_append_cons (fun l hl => ?_) s t
      have hd := ht d rfl
      obtain ⟨hlower, hupper⟩ := hword l hl
      constructor
      · rintro rfl
        exact absurd hd (by simp [hlower])
      · rintro rfl
        exact absurd hd (by simp [hupper])

/-- In a word, the phrase is found where the letters of "when" end the word, if the next word begins
with those of "done". -/
theorem whenDone_append_iff {before : Option Char} {u t rest : Text} (ht : EndsWord t)
    (hu : ∀ c ∈ u, isBlank c = false) :
    whenDone before (u ++ t) = some ((), rest) ↔
      before.any isWord = false ∧ Spells "when".toList u ∧ t ≠ [] ∧
        takeLetters? "done".toList (trimStart t) = some rest ∧ rest.head?.any isWord = false := by
  have hletters : ∀ l ∈ "when".toList, isBlank l = false ∧ isBlank l.toUpper = false :=
    forall_mem_of_all (by decide)
  rw [whenDone_eq, takeLetters?_append_of_endsWord ht hletters]
  cases hbefore : before.any isWord with
  | true => simp
  | false =>
      rw [if_neg Bool.false_ne_true]
      cases hwhen : takeLetters? "when".toList u with
      | none =>
          have hspells : ¬Spells "when".toList u := by
            rw [Spells, hwhen]
            simp
          exact iff_of_false (by simp) fun h => hspells h.2.1
      | some r =>
          cases r with
          | nil =>
              rw [Option.map_some, Option.bind_some, List.nil_append]
              cases t with
              | nil => exact iff_of_false (by simp) fun h => h.2.2.1 rfl
              | cons d t =>
                  have hd : (d :: t).head?.any isBlank = true := ht d rfl
                  rw [if_pos hd, Option.bind_eq_some_iff]
                  constructor
                  · rintro ⟨rest', hdone, hrest⟩
                    split at hrest
                    · exact absurd hrest (by simp)
                    · next hword =>
                        obtain ⟨-, rfl⟩ := Prod.mk.inj (Option.some.inj hrest)
                        exact ⟨rfl, hwhen, List.cons_ne_nil d t, hdone, by simpa using hword⟩
                  · rintro ⟨-, -, -, hdone, hword⟩
                    exact ⟨rest, hdone, if_neg (by simp [hword])⟩
          | cons d r =>
              -- The word goes on behind the letters.
              obtain ⟨l, -, rfl⟩ := takeLetters?_eq_some_iff.mp hwhen
              have hd : ¬(d :: r ++ t).head?.any isBlank = true := by
                show ¬isBlank d = true
                rw [hu d (by simp)]
                exact Bool.false_ne_true
              have hspells : ¬Spells "when".toList (l ++ d :: r) := by
                rw [Spells, hwhen]
                simp
              rw [Option.map_some, Option.bind_some, if_neg hd]
              exact iff_of_false (by simp) fun h => hspells h.2.1

/-- Before blanks, a word holds no phrase. -/
theorem whenDone_append_of_blank {before : Option Char} {u t : Text}
    (hu : ∀ c ∈ u, isBlank c = false) (ht : ∀ c ∈ t, isBlank c = true) :
    whenDone before (u ++ t) = none := by
  refine Option.eq_none_iff_forall_ne_some.mpr fun ⟨(), rest⟩ hfound => ?_
  obtain ⟨-, -, -, hdone, -⟩ :=
    (whenDone_append_iff (fun c hc => ht c (List.mem_of_head? hc)) hu).mp hfound
  rw [trimStart_eq_nil_iff.mpr ht] at hdone
  exact nomatch hdone

/-- A word before blanks is passed over. -/
theorem piecesFrom_of_blank {before : Option Char} {w t : Text} (hw : ∀ c ∈ w, isBlank c = false)
    (ht : ∀ c ∈ t, isBlank c = true) :
    whenDone.piecesFrom 0 before (w ++ t) = (w ++ t).map .plain := by
  have hword : ∀ p c u, w = p ++ c :: u →
      whenDone (p.getLast?.or before) (c :: u ++ t) = none := fun p c u hsplit =>
    whenDone_append_of_blank (fun d hd => hw d (by simp [hsplit, hd])) ht
  have hgap : whenDone.piecesFrom 0 (w.getLast?.or before) t = t.map .plain :=
    piecesFrom_eq_map_of_none fun p c u hsplit =>
      whenDone_separable.toLawful.blank (ht c (by simp [hsplit]))
  rw [piecesFrom_append_of_none hword, hgap, List.map_append]

section Next

variable {before : Option Char} {u gap v t : Text}

/-- Before a word, the phrase is found when the one word ends it and the other goes on with it. -/
theorem whenDone_append_next_iff (hnext : NextWord gap v t) (hu : ∀ c ∈ u, isBlank c = false)
    {rest : Text} :
    whenDone before (u ++ (gap ++ (v ++ t))) = some ((), rest) ↔
      before.any isWord = false ∧ Spells "when".toList u ∧
        ∃ q, behindDone? v = some q ∧ rest = q ++ t := by
  have hletters : ∀ l ∈ "done".toList, isBlank l = false ∧ isBlank l.toUpper = false :=
    forall_mem_of_all (by decide)
  have hne : gap ++ (v ++ t) ≠ [] := by simp [hnext.gap_ne_nil]
  -- Whether a word goes on is seen inside the next word, or at the gap behind it.
  have hhead (q : Text) : (q ++ t).head?.any isWord = q.head?.any isWord := by
    cases q with
    | cons c q => rfl
    | nil =>
        cases t with
        | nil => rfl
        | cons c t => exact isWord_eq_false_of_isBlank (hnext.ends c rfl)
  rw [whenDone_append_iff hnext.endsWord hu, hnext.trimStart_eq,
    takeLetters?_append_of_endsWord hnext.ends hletters, Option.map_eq_some_iff]
  refine and_congr_right fun _ => and_congr_right fun _ => ?_
  rw [behindDone?]
  constructor
  · rintro ⟨-, ⟨q, hq, rfl⟩, hword⟩
    rw [hhead] at hword
    exact ⟨q, Option.filter_eq_some_iff.mpr ⟨hq, by simp [hword]⟩, rfl⟩
  · rintro ⟨q, hq, rfl⟩
    obtain ⟨hq, hword⟩ := Option.filter_eq_some_iff.mp hq
    exact ⟨hne, ⟨q, hq, rfl⟩, (hhead q).trans (by simpa using hword)⟩

/-- A word is passed over, with the gap behind it, unless it ends in "when" and "done" follows. -/
theorem piecesFrom_of_no_phrase {w : Text} (hw : ∀ c ∈ w, isBlank c = false)
    (hnext : NextWord gap v t) (h : ¬(opens w = true ∧ closes v = true)) :
    whenDone.piecesFrom 0 before (w ++ (gap ++ (v ++ t))) =
      (w ++ gap).map .plain ++ whenDone.piecesFrom 0 gap.getLast? (v ++ t) := by
  -- A phrase that began inside the word would end it in "when" and go on with "done".
  have hword : ∀ p c u, w = p ++ c :: u →
      whenDone (p.getLast?.or before) (c :: u ++ (gap ++ (v ++ t))) = none := by
    intro p c u hsplit
    refine Option.eq_none_iff_forall_ne_some.mpr fun ⟨(), rest⟩ hfound => ?_
    have hu : ∀ d ∈ c :: u, isBlank d = false := fun d hd => hw d (by simp [hsplit, hd])
    obtain ⟨hbefore, hspells, q, hq, -⟩ := (whenDone_append_next_iff hnext hu).mp hfound
    have hlast : p.getLast?.any isWord = false := by
      cases hp : p.getLast? with
      | none => rfl
      | some d => rwa [hp] at hbefore
    exact h ⟨Option.isSome_of_mem (beforeWhen?_eq_some_iff.mpr ⟨_, hsplit, hspells, hlast⟩),
      Option.isSome_of_mem hq⟩
  have hgap : ∀ p c u, gap = p ++ c :: u →
      whenDone (p.getLast?.or (w.getLast?.or before)) (c :: u ++ (v ++ t)) = none :=
    fun p c u hsplit => whenDone_separable.toLawful.blank (hnext.gap_blank c (by simp [hsplit]))
  rw [piecesFrom_append_of_none hword, piecesFrom_append_of_none hgap, List.map_append,
    List.append_assoc]
  obtain ⟨c, hc⟩ := Option.isSome_iff_exists.mp (List.getLast?_isSome.mpr hnext.gap_ne_nil)
  rw [hc]
  rfl

/-- Where a word ends in "when" and the next begins with "done", this is a token, and the walk goes
on behind it. -/
theorem piecesFrom_of_phrase {w p q : Text} (hw : ∀ c ∈ w, isBlank c = false)
    (hbegins : before.any isWord = true → w.head?.any isWord = false) (hnext : NextWord gap v t)
    (hp : beforeWhen? w = some p) (hq : behindDone? v = some q) :
    ∃ last, whenDone.piecesFrom 0 before (w ++ (gap ++ (v ++ t))) =
      p.map .plain ++ .token () :: whenDone.piecesFrom 0 last (q ++ t) := by
  obtain ⟨l, rfl, hl, hlast⟩ := beforeWhen?_eq_some_iff.mp hp
  obtain ⟨d, rfl, hd, -⟩ := behindDone?_eq_some_iff.mp hq
  have hpassed : ∀ p' c u, p = p' ++ c :: u →
      whenDone (p'.getLast?.or before) (c :: u ++ (l ++ (gap ++ (d ++ q ++ t)))) = none := by
    intro p' c u hsplit
    refine Option.eq_none_iff_forall_ne_some.mpr fun ⟨(), rest⟩ hfound => ?_
    have hu : ∀ e ∈ c :: u ++ l, isBlank e = false := fun e he => hw e (by
      rw [hsplit, List.append_assoc]
      exact List.mem_append_right p' he)
    rw [← List.append_assoc] at hfound
    obtain ⟨-, hspells, -⟩ := (whenDone_append_next_iff hnext hu).mp hfound
    -- The letters of "when" do not go on with more letters in front of them.
    have hlength := hspells.length_eq
    rw [List.length_append, hl.length_eq, List.length_cons] at hlength
    omega
  have hneighbour : (p.getLast?.or before).any isWord = false := by
    cases hp' : p.getLast? with
    | some e =>
        rw [hp'] at hlast
        exact hlast
    | none =>
        rw [List.getLast?_eq_none_iff.mp hp', List.nil_append] at hbegins
        cases hbefore : before.any isWord with
        | false => exact hbefore
        | true =>
            obtain ⟨c, u, rfl, -, -⟩ := spells_cons_iff (a := 'w').mp hl
            have hc := isWord_of_spells_when hl c List.mem_cons_self
            exact absurd (hbegins hbefore) (by simp [hc])
  have hfound := (whenDone_append_next_iff hnext fun c hc => hw c (List.mem_append_right p hc)).mpr
    ⟨hneighbour, hl, q, hq, rfl⟩
  obtain ⟨c, u, rfl, -, -⟩ := spells_cons_iff (a := 'w').mp hl
  have hshape : (c :: u) ++ (gap ++ (d ++ q ++ t)) = c :: (u ++ gap ++ d) ++ (q ++ t) := by simp
  rw [List.append_assoc, piecesFrom_append_of_none hpassed, hshape]
  rw [hshape] at hfound
  exact ⟨_, congrArg _ (piecesFrom_of_some hfound)⟩

end Next

/-! ## The phrase in a text -/

/-- The words "when" and "done" stand in the text, in any case, with blanks between them and no word
character directly around them. -/
def HoldsWhenDone (s : Text) : Prop :=
  ∃ before l gap d after, s = before ++ (l ++ (gap ++ (d ++ after))) ∧
    Spells "when".toList l ∧ (gap ≠ [] ∧ ∀ c ∈ gap, isBlank c = true) ∧ Spells "done".toList d ∧
    before.getLast?.any isWord = false ∧ after.head?.any isWord = false

/-- The scanner finds the phrase where it stands. -/
theorem finds_whenDone_iff {s : Text} : whenDone.finds s = true ↔ HoldsWhenDone s := by
  rw [finds_iff]
  constructor
  · rintro ⟨before, c, u, rfl, hfound⟩
    obtain ⟨⟨_, after⟩, hfound⟩ := Option.isSome_iff_exists.mp hfound
    obtain ⟨hbefore, l, gap, d, hs, hl, hgap, hd, hafter⟩ := whenDone_eq_some_iff.mp hfound
    exact ⟨before, l, gap, d, after, by rw [hs], hl, hgap, hd, hbefore, hafter⟩
  · rintro ⟨before, l, gap, d, after, rfl, hl, hgap, hd, hbefore, hafter⟩
    obtain ⟨c, u, rfl, -, -⟩ := spells_cons_iff (a := 'w').mp hl
    exact ⟨before, c, _, rfl, Option.isSome_of_mem
      (whenDone_eq_some_iff.mpr ⟨hbefore, _, gap, d, rfl, hl, hgap, hd, hafter⟩)⟩

/-! ## The walk over the words -/

/-- What phrases leave of a word and the words behind it. -/
def without (w : Text) : List Text → List Text
  | [] => [w]
  | v :: ws =>
    match beforeWhen? w, behindDone? v with
    | some p, some q => p :: without q ws
    | _, _ => w :: without v ws

/-- The words that are left when the phrases are taken out, from left to right. -/
def withoutPhrases (ws : List Text) : List Text := (without [] ws).filter (!·.isEmpty)

/-- Whether there is a phrase between the words. -/
def holdsPhrase : List Text → Bool
  | [] => false
  | w :: ws => (opens w && ws.head?.any closes) || holdsPhrase ws

theorem without_of_phrase {w v p q : Text} (hp : beforeWhen? w = some p)
    (hq : behindDone? v = some q) (ws : List Text) :
    without w (v :: ws) = p :: without q ws := by
  rw [without, hp, hq]

theorem without_of_no_phrase {w v : Text} (h : ¬(opens w = true ∧ closes v = true))
    (ws : List Text) : without w (v :: ws) = w :: without v ws := by
  rw [without]
  split
  · next hp hq => exact absurd ⟨Option.isSome_of_mem hp, Option.isSome_of_mem hq⟩ h
  · rfl

theorem words_of_filled {w : Text} (hw : ∀ c ∈ w, isBlank c = false) :
    words w = [w].filter (!·.isEmpty) := by
  cases w with
  | nil => rfl
  | cons c w => exact words_of_not_blank (List.cons_ne_nil c w) hw

theorem words_append_gap {gap : Text} (hne : gap ≠ []) (hblank : ∀ c ∈ gap, isBlank c = true)
    (s t : Text) : words (s ++ (gap ++ t)) = words s ++ words t := by
  obtain ⟨c, gap, rfl⟩ := List.exists_cons_of_ne_nil hne
  obtain ⟨hc, hblank⟩ := List.forall_mem_cons.mp hblank
  rw [List.cons_append, words_append_blank hc, words_of_blank_append hblank]

theorem words_append_endsWord {w t : Text} (hne : w ≠ []) (hw : ∀ c ∈ w, isBlank c = false)
    (ht : EndsWord t) : words (w ++ t) = w :: words t := by
  cases t with
  | nil => rw [List.append_nil, words_of_not_blank hne hw]; rfl
  | cons c t =>
      rw [words_append_blank (ht c rfl), words_of_not_blank hne hw,
        words_cons_of_isBlank (ht c rfl)]
      rfl

/-- The walk over a word and what is behind it shows the words without the phrases, and it meets a
token when there is a phrase between the words. -/
theorem words_piecesFrom {t : Text} (ht : EndsWord t) {before : Option Char} {w : Text}
    (hw : ∀ c ∈ w, isBlank c = false)
    (hbegins : before.any isWord = true → w.head?.any isWord = false) :
    words ((whenDone.piecesFrom 0 before (w ++ t)).map shown) =
        (without w (words t)).filter (!·.isEmpty) ∧
      ((whenDone.piecesFrom 0 before (w ++ t)).filterMap value? = [] ↔
        holdsPhrase (w :: words t) = false) := by
  induction t, ht using words_induction generalizing before w with
  | blank t ht =>
      rw [piecesFrom_of_blank hw ht, map_shown_plain, words_append_of_blank ht, words_of_blank ht,
        words_of_filled hw, filterMap_value?_plain]
      exact ⟨rfl, by simp [holdsPhrase]⟩
  | word gap v t hnext ih =>
      rw [words_of_blank_append hnext.gap_blank,
        words_append_endsWord hnext.word_ne_nil hnext.word_filled hnext.ends]
      by_cases h : opens w = true ∧ closes v = true
      · obtain ⟨p, hp⟩ := Option.isSome_iff_exists.mp h.1
        obtain ⟨q, hq⟩ := Option.isSome_iff_exists.mp h.2
        -- The walk takes the phrase as one token and goes on inside the second word, behind its
        -- "done".
        obtain ⟨last, hwalk⟩ := piecesFrom_of_phrase hw hbegins hnext hp hq
        obtain ⟨l, rfl, -, hfirst⟩ := behindDone?_eq_some_iff.mp hq
        obtain ⟨d, rfl, -, -⟩ := beforeWhen?_eq_some_iff.mp hp
        obtain ⟨hshown, -⟩ := @ih last q
          (fun c hc => hnext.word_filled c (List.mem_append_right l hc)) fun _ => hfirst
        constructor
        · rw [hwalk, without_of_phrase hp hq, List.map_append, map_shown_plain, List.map_cons]
          show words (p ++ ' ' :: _) = _
          rw [words_append_blank isBlank_space, hshown,
            words_of_filled fun c hc => hw c (List.mem_append_left d hc), ← List.filter_append]
          rfl
        · rw [hwalk, List.filterMap_append, filterMap_value?_plain]
          refine iff_of_false (List.cons_ne_nil _ _) ?_
          rw [holdsPhrase, List.head?_cons, Option.any_some, h.1, h.2]
          simp
      · rw [piecesFrom_of_no_phrase hw hnext h, without_of_no_phrase h]
        -- The next word stands behind a blank.
        have hbegins' : gap.getLast?.any isWord = true → v.head?.any isWord = false := by
          cases hlast : gap.getLast? with
          | none => exact fun hword => absurd hword (by simp)
          | some c =>
              have hc := isWord_eq_false_of_isBlank
                (hnext.gap_blank c (List.mem_of_getLast? hlast))
              exact fun hword => absurd hword (by simp [hc])
        obtain ⟨hshown, hmet⟩ := ih hnext.word_filled hbegins'
        constructor
        · rw [List.map_append, map_shown_plain, List.append_assoc,
            words_append_gap hnext.gap_ne_nil hnext.gap_blank, hshown, words_of_filled hw,
            ← List.filter_append]
          rfl
        · rw [List.filterMap_append, filterMap_value?_plain, List.nil_append, hmet,
            holdsPhrase.eq_def (w :: _)]
          have hnone : (opens w && closes v) = false := by
            simpa only [Bool.and_eq_true, ← Bool.not_eq_true] using h
          simp [hnone]

theorem opens_nil : opens [] = false := by decide

theorem holdsPhrase_cons_of_not_opens {w : Text} (h : opens w = false) (ws : List Text) :
    holdsPhrase (w :: ws) = holdsPhrase ws := by
  simp [holdsPhrase, h]

/-- The words of a text as those of a walk that begins in its first word, which may be missing. -/
theorem exists_first_word (s : Text) : ∃ w t, s = w ++ t ∧ EndsWord t ∧
    (∀ c ∈ w, isBlank c = false) ∧
      withoutPhrases (words s) = (without w (words t)).filter (!·.isEmpty) ∧
      holdsPhrase (words s) = holdsPhrase (w :: words t) := by
  have hw : ∀ c ∈ s.takeWhile (!isBlank ·), isBlank c = false := fun c hc => by
    simpa using List.mem_takeWhile_imp hc
  have ht : EndsWord (s.dropWhile (!isBlank ·)) := fun c hc => by simpa using head_dropWhile hc
  refine ⟨_, _, List.takeWhile_append_dropWhile.symm, ht, hw, ?_⟩
  by_cases hne : s.takeWhile (!isBlank ·) = []
  · have hs : s.dropWhile (!isBlank ·) = s := by
      simpa [hne] using List.takeWhile_append_dropWhile (p := (!isBlank ·)) (l := s)
    rw [hne, hs, holdsPhrase_cons_of_not_opens opens_nil]
    exact ⟨rfl, rfl⟩
  · have hwords := words_append_endsWord hne hw ht
    rw [List.takeWhile_append_dropWhile] at hwords
    rw [hwords, withoutPhrases, without_of_no_phrase (by simp [opens_nil])]
    exact ⟨rfl, rfl⟩

/-- Blanking out the phrases of a text takes them out of its words. -/
theorem words_blankOut_whenDone (s : Text) :
    words (whenDone.blankOut s) = withoutPhrases (words s) := by
  obtain ⟨w, t, hs, ht, hw, hleft, -⟩ := exists_first_word s
  have hbegins : (none : Option Char).any isWord = true → w.head?.any isWord = false :=
    fun h => absurd h (by simp)
  obtain ⟨hshown, -⟩ := words_piecesFrom ht hw hbegins
  rw [hleft, blankOut_eq_map, pieces, ← hshown, hs]

/-- A text holds a phrase when there is one between its words. -/
theorem finds_whenDone (s : Text) : whenDone.finds s = holdsPhrase (words s) := by
  obtain ⟨w, t, hs, ht, hw, -, hholds⟩ := exists_first_word s
  have hbegins : (none : Option Char).any isWord = true → w.head?.any isWord = false :=
    fun h => absurd h (by simp)
  obtain ⟨-, hmet⟩ := words_piecesFrom ht hw hbegins
  rw [Bool.eq_iff_iff, ← not_iff_not, Bool.not_eq_true, Bool.not_eq_true, finds_eq_false_iff,
    tokens_eq_filterMap, pieces, hholds, ← hmet, hs]

end Token

end Checklist
