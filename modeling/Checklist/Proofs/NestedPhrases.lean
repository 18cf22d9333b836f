import Checklist.Proofs.Phrases
import Checklist.Proofs.Rereading

/-!
# Nested phrases — "when done" around "when done"

Taking the phrases out of a rule can put a new one together: what stood on both sides of a phrase
are neighbours afterwards. This happens exactly where phrases are nested, as in "when when done
done" (`holdsPhrase_withoutPhrases`): a word ends in "when", whole phrases follow, and behind them a
word begins with "done". No other remainder can form a phrase, because what is left of a word before
its "when" cannot open one, and what is left behind a "done" cannot close one. So a rule that is
read holds the phrase exactly when the rule that was written nests it
(`Codec.holdsWhenDone_rule_iff`).
-/

namespace Checklist

open Text Scanner

namespace Token

/-! ## What is left of the two words of a phrase -/

section Left

variable {w p v q : Text}

theorem opens_iff : opens w = true ↔
    ∃ p l, w = p ++ l ∧ Spells "when".toList l ∧ p.getLast?.any isWord = false := by
  rw [opens, Option.isSome_iff_exists]
  exact exists_congr fun p => beforeWhen?_eq_some_iff

theorem closes_iff : closes w = true ↔
    ∃ q l, w = l ++ q ∧ Spells "done".toList l ∧ q.head?.any isWord = false := by
  rw [closes, Option.isSome_iff_exists]
  exact exists_congr fun q => behindDone?_eq_some_iff

/-- A text that ends in no word character is not a start of one that has only such. -/
theorem eq_nil_of_isWord {s : Text} (hlast : p.getLast?.any isWord = false)
    (hword : ∀ c ∈ p ++ s, isWord c = true) : p = [] := by
  cases hp : p.getLast? with
  | none => exact List.getLast?_eq_none_iff.mp hp
  | some c =>
      have hc := hword c (List.mem_append_left s (List.mem_of_getLast? hp))
      rw [hp, Option.any_some, hc] at hlast
      exact nomatch hlast

/-- A text that begins with no word character is not the end of one that has only such. -/
theorem eq_nil_of_isWord' {s : Text} (hfirst : q.head?.any isWord = false)
    (hword : ∀ c ∈ s ++ q, isWord c = true) : q = [] := by
  cases q with
  | nil => rfl
  | cons c q =>
      have hc := hword c (List.mem_append_right s List.mem_cons_self)
      rw [List.head?_cons, Option.any_some, hc] at hfirst
      exact nomatch hfirst

theorem spells_when_ne_nil {l : Text} (h : Spells "when".toList l) : l ≠ [] := by
  rintro rfl
  exact absurd h (by decide)

theorem spells_done_ne_nil {l : Text} (h : Spells "done".toList l) : l ≠ [] := by
  rintro rfl
  exact absurd h (by decide)

/-- What is left before the letters of "when" does not end in them again. -/
theorem opens_of_beforeWhen? (hp : beforeWhen? w = some p) : opens p = false := by
  refine Bool.eq_false_iff.mpr fun hopens => ?_
  obtain ⟨-, -, -, hlast⟩ := beforeWhen?_eq_some_iff.mp hp
  obtain ⟨p, l, rfl, hl, -⟩ := opens_iff.mp hopens
  rw [List.getLast?_append_of_ne_nil _ (spells_when_ne_nil hl)] at hlast
  have hword : ∀ c ∈ l ++ [], isWord c = true := by
    rw [List.append_nil]
    exact isWord_of_spells_when hl
  exact spells_when_ne_nil hl (eq_nil_of_isWord hlast hword)

/-- What is left behind the letters of "done" does not begin with them again. -/
theorem closes_of_behindDone? (hq : behindDone? v = some q) : closes q = false := by
  refine Bool.eq_false_iff.mpr fun hcloses => ?_
  obtain ⟨-, -, -, hfirst⟩ := behindDone?_eq_some_iff.mp hq
  obtain ⟨q, l, rfl, hl, -⟩ := closes_iff.mp hcloses
  rw [List.head?_append_of_ne_nil _ (spells_done_ne_nil hl)] at hfirst
  exact spells_done_ne_nil hl (eq_nil_of_isWord' (s := []) hfirst (isWord_of_spells_done hl))

/-- What is left of a word before "when" begins with "done" if the word did. -/
theorem closes_beforeWhen? (hp : beforeWhen? w = some p) (hne : p ≠ []) : closes p = closes w := by
  obtain ⟨l, rfl, hl, hlast⟩ := beforeWhen?_eq_some_iff.mp hp
  rw [Bool.eq_iff_iff, closes_iff, closes_iff]
  constructor
  · rintro ⟨q, d, rfl, hd, hfirst⟩
    refine ⟨q ++ l, d, List.append_assoc d q l, hd, ?_⟩
    cases q with
    | cons c q => exact hfirst
    | nil =>
        rw [List.append_nil] at hlast
        exact absurd (eq_nil_of_isWord (s := []) hlast (by simpa using isWord_of_spells_done hd))
          (spells_done_ne_nil hd)
  · rintro ⟨q, d, heq, hd, hfirst⟩
    rcases List.append_eq_append_iff.mp heq with ⟨s, rfl, -⟩ | ⟨s, rfl, rfl⟩
    · exact absurd (eq_nil_of_isWord hlast (isWord_of_spells_done hd)) hne
    · refine ⟨s, d, rfl, hd, ?_⟩
      cases s with
      | nil => rfl
      | cons c s => exact hfirst

/-- What is left of a word behind "done" ends in "when" if the word did. -/
theorem opens_behindDone? (hq : behindDone? v = some q) : opens q = opens v := by
  obtain ⟨d, rfl, hd, hfirst⟩ := behindDone?_eq_some_iff.mp hq
  rw [Bool.eq_iff_iff, opens_iff, opens_iff]
  constructor
  · rintro ⟨p, l, rfl, hl, hlast⟩
    refine ⟨d ++ p, l, (List.append_assoc d p l).symm, hl, ?_⟩
    cases p with
    | cons c p => rwa [List.getLast?_append_of_ne_nil _ (List.cons_ne_nil c p)]
    | nil =>
        exact absurd (eq_nil_of_isWord' (s := []) hfirst (isWord_of_spells_when hl))
          (spells_when_ne_nil hl)
  · rintro ⟨p, l, heq, hl, hlast⟩
    rcases List.append_eq_append_iff.mp heq with ⟨s, rfl, rfl⟩ | ⟨s, rfl, rfl⟩
    · refine ⟨s, l, rfl, hl, ?_⟩
      cases s with
      | nil => rfl
      | cons c s => rwa [List.getLast?_append_of_ne_nil _ (List.cons_ne_nil c s)] at hlast
    · -- The letters of both words would be the same.
      obtain rfl := eq_nil_of_isWord' hfirst (isWord_of_spells_when hl)
      obtain rfl := eq_nil_of_isWord hlast (isWord_of_spells_done hd)
      exact absurd hd (not_spells_both hl)

theorem spells_when_iff : Spells "when".toList w ↔ beforeWhen? w = some [] := by
  rw [beforeWhen?_eq_some_iff]
  constructor
  · exact fun h => ⟨w, rfl, h, rfl⟩
  · rintro ⟨l, rfl, h, -⟩
    exact h

theorem spells_done_iff : Spells "done".toList v ↔ behindDone? v = some [] := by
  rw [behindDone?_eq_some_iff]
  constructor
  · exact fun h => ⟨v, (List.append_nil v).symm, h, rfl⟩
  · rintro ⟨l, rfl, h, -⟩
    rwa [List.append_nil]

theorem closes_of_spells_when (h : Spells "when".toList w) : closes w = false := by
  refine Bool.eq_false_iff.mpr fun hcloses => ?_
  obtain ⟨q, hq⟩ := Option.isSome_iff_exists.mp hcloses
  obtain ⟨l, rfl, hl, -⟩ := behindDone?_eq_some_iff.mp hq
  exact not_spells_both h hl

end Left

/-! ## Nested phrases -/

/-- Whether the words begin with one that begins with "done", once the phrases in front of it are
taken out. -/
def leavesDone : List Text → Bool
  | [] => false
  | [w] => closes w
  | w :: v :: ws =>
    if Spells "when".toList w ∧ Spells "done".toList v then leavesDone ws else closes w

/-- Whether the words begin with phrases, one or more, and behind them with "done". -/
def phrasesThenDone : List Text → Bool
  | w :: v :: ws =>
    if Spells "when".toList w ∧ Spells "done".toList v then leavesDone ws else false
  | _ => false

/-- Whether a word that ends in "when" has phrases behind it and "done" behind these. -/
def nestsPhrase : List Text → Bool
  | [] => false
  | w :: ws => (opens w && phrasesThenDone ws) || nestsPhrase ws

/-! ## What the words are without the phrases -/

section Words

variable {w : Text} {ws : List Text}

theorem withoutPhrases_cons (w : Text) (ws : List Text) :
    withoutPhrases (w :: ws) = (without w ws).filter (!·.isEmpty) := by
  rw [withoutPhrases, without_of_no_phrase (by simp [opens_nil])]
  rfl

theorem head_filter_cons (hne : w ≠ []) (ws : List Text) :
    ((w :: ws).filter (!·.isEmpty)).head?.any closes = closes w := by
  rw [List.filter_cons_of_pos (by simpa using hne)]
  rfl

/-- The first word is left, up to letters at its end, unless it is "when" and no more. -/
theorem head_withoutPhrases (hne : w ≠ []) (hwhen : ¬Spells "when".toList w) (ws : List Text) :
    (withoutPhrases (w :: ws)).head?.any closes = closes w := by
  rw [withoutPhrases_cons]
  cases ws with
  | nil => exact head_filter_cons hne []
  | cons v ws =>
      by_cases h : opens w = true ∧ closes v = true
      · obtain ⟨p, hp⟩ := Option.isSome_iff_exists.mp h.1
        obtain ⟨q, hq⟩ := Option.isSome_iff_exists.mp h.2
        have hpne : p ≠ [] := by
          rintro rfl
          exact hwhen (spells_when_iff.mpr hp)
        rw [without_of_phrase hp hq, head_filter_cons hpne, closes_beforeWhen? hp hpne]
      · rw [without_of_no_phrase h, head_filter_cons hne]

/-- What is left begins with "done" when the words do behind their phrases. -/
theorem head_withoutPhrases_eq_leavesDone (hws : ∀ w ∈ ws, w ≠ []) :
    (withoutPhrases ws).head?.any closes = leavesDone ws := by
  fun_induction leavesDone ws with
  | case1 => rfl
  | case2 w =>
      rw [withoutPhrases_cons, without,
        List.filter_cons_of_pos (by simpa using hws w List.mem_cons_self)]
      rfl
  | case3 w v ws h ih =>
      -- The phrase goes, and the words behind it are left as if it were not there.
      rw [withoutPhrases_cons,
        without_of_phrase (spells_when_iff.mp h.1) (spells_done_iff.mp h.2)]
      exact ih fun u hu => hws u (by simp [hu])
  | case4 w v ws h =>
      have hne : w ≠ [] := hws w List.mem_cons_self
      by_cases hwhen : Spells "when".toList w
      · by_cases hcloses : closes v = true
        · -- The word goes with the start of the next, which has a rest that does not close.
          obtain ⟨q, hq⟩ := Option.isSome_iff_exists.mp hcloses
          have hqne : q ≠ [] := by
            rintro rfl
            exact h ⟨hwhen, spells_done_iff.mpr hq⟩
          have hqwhen : ¬Spells "when".toList q := by
            obtain ⟨-, -, -, hfirst⟩ := behindDone?_eq_some_iff.mp hq
            exact fun hspells =>
              hqne (eq_nil_of_isWord' (s := []) hfirst (isWord_of_spells_when hspells))
          rw [closes_of_spells_when hwhen, withoutPhrases_cons,
            without_of_phrase (spells_when_iff.mp hwhen) hq]
          show ((without q ws).filter (!·.isEmpty)).head?.any closes = false
          rw [← withoutPhrases_cons, head_withoutPhrases hqne hqwhen, closes_of_behindDone? hq]
        · rw [withoutPhrases_cons, without_of_no_phrase fun hboth => hcloses hboth.2,
            head_filter_cons hne]
      · exact head_withoutPhrases hne hwhen (v :: ws)

theorem leavesDone_eq_phrasesThenDone {v : Text} (h : closes v = false) (ws : List Text) :
    leavesDone (v :: ws) = phrasesThenDone (v :: ws) := by
  cases ws with
  | nil => exact h
  | cons u ws => rw [leavesDone, phrasesThenDone, h]

/-- A word in front may be the first of a phrase. -/
theorem holdsPhrase_filter_cons (w : Text) (ws : List Text) :
    holdsPhrase ((w :: ws).filter (!·.isEmpty)) =
      (opens w && (ws.filter (!·.isEmpty)).head?.any closes ||
        holdsPhrase (ws.filter (!·.isEmpty))) := by
  cases w with
  | nil => rw [opens_nil]; rfl
  | cons c w => rfl

/-- The words that are left hold a phrase when the words nest one. -/
theorem holdsPhrase_without (w : Text) (hws : ∀ v ∈ ws, v ≠ []) :
    holdsPhrase ((without w ws).filter (!·.isEmpty)) = nestsPhrase (w :: ws) := by
  induction ws generalizing w with
  | nil =>
      rw [without, holdsPhrase_filter_cons]
      simp [nestsPhrase, phrasesThenDone, holdsPhrase]
  | cons v ws ih =>
      have hrest : ∀ u ∈ ws, u ≠ [] := fun u hu => hws u (List.mem_cons_of_mem v hu)
      rw [nestsPhrase]
      by_cases h : opens w = true ∧ closes v = true
      · -- The rest of the next word opens a phrase as the word itself would.
        obtain ⟨p, hp⟩ := Option.isSome_iff_exists.mp h.1
        obtain ⟨q, hq⟩ := Option.isSome_iff_exists.mp h.2
        -- A word that begins with "done" is no "when", so no phrase begins at it.
        have hnone : phrasesThenDone (v :: ws) = false := by
          have hwhen : ¬Spells "when".toList v := fun hwhen =>
            Bool.false_ne_true ((closes_of_spells_when hwhen).symm.trans h.2)
          cases ws with
          | nil => rfl
          | cons u ws => exact if_neg fun hboth => hwhen hboth.1
        rw [without_of_phrase hp hq, holdsPhrase_filter_cons, opens_of_beforeWhen? hp, ih q hrest,
          hnone, nestsPhrase, nestsPhrase, opens_behindDone? hq]
        simp
      · have hhead := head_withoutPhrases_eq_leavesDone hws
        rw [withoutPhrases_cons] at hhead
        rw [without_of_no_phrase h, holdsPhrase_filter_cons, ih v hrest, hhead]
        cases hopens : opens w with
        | false => rfl
        | true =>
            have hcloses : closes v = false := Bool.eq_false_iff.mpr fun hcloses =>
              h ⟨hopens, hcloses⟩
            rw [leavesDone_eq_phrasesThenDone hcloses]

/-- The words that are left hold a phrase when the words nest one. -/
theorem holdsPhrase_withoutPhrases (hws : ∀ w ∈ ws, w ≠ []) :
    holdsPhrase (withoutPhrases ws) = nestsPhrase ws := by
  cases ws with
  | nil => rfl
  | cons w ws =>
      rw [withoutPhrases_cons]
      exact holdsPhrase_without w fun v hv => hws v (List.mem_cons_of_mem w hv)

end Words

/-- Taking the phrases out of a text leaves one exactly when the text nests them. -/
theorem finds_blankOut_whenDone (s : Text) :
    whenDone.finds (collapse (whenDone.blankOut s)) = nestsPhrase (words s) := by
  rw [finds_whenDone, words_collapse, words_blankOut_whenDone]
  exact holdsPhrase_withoutPhrases fun _ => ne_nil_of_mem_words

end Token

/-! ## Rules -/

/-- The rule that is read holds "when done" exactly when the rule that is written nests it. -/
theorem Codec.holdsWhenDone_rule_iff {codec : Codec} {line id : Text} {source : Provenance}
    {t : Task} {r : Recurrence} (ht : codec.parse line id source = some t)
    (hr : t.recurrence = some r) :
    ∃ item written rest, Item.ofLine? line = some item ∧
      Token.cutRecurrence? item.content = some (written, rest) ∧
      (Token.HoldsWhenDone r.rule ↔ Token.nestsPhrase (words written) = true) := by
  obtain ⟨item, hitem, rfl⟩ := Option.map_eq_some_iff.mp ht
  rw [Item.toTask_recurrence] at hr
  cases hcut : Token.cutRecurrence? item.content with
  | none =>
      rw [parseRecurrence_of_not_mem hcut] at hr
      exact nomatch hr
  | some cut =>
      obtain ⟨written, rest⟩ := cut
      refine ⟨item, written, rest, hitem, hcut, ?_⟩
      rw [parseRecurrence_of_cut hcut] at hr
      split at hr
      · exact nomatch hr
      · obtain rfl := Option.some.inj hr
        rw [← Token.finds_whenDone_iff, Token.finds_blankOut_whenDone]

/-- A phrase that stands alone is taken out of the rule. -/
theorem Codec.holdsWhenDone_rule_iff_everyWeek :
    ∃ t r, (Codec.mk .bare Date.first).parse "- [ ] Water 🔁 every WEEK When  done".toList [] {} =
        some t ∧ t.recurrence = some r ∧ r.rule = "every WEEK".toList ∧
      ¬Token.HoldsWhenDone r.rule := by
  have hread : (Codec.mk .bare Date.first).parse
      "- [ ] Water 🔁 every WEEK When  done".toList [] {} =
      some { id := [], description := "Water".toList,
             recurrence := some ⟨"every WEEK".toList, true⟩,
             sourceText := "- [ ] Water 🔁 every WEEK When  done".toList } := by decide +kernel
  obtain ⟨item, written, rest, hitem, hcut, hiff⟩ := Codec.holdsWhenDone_rule_iff hread rfl
  have hnests : (Item.ofLine? "- [ ] Water 🔁 every WEEK When  done".toList).all (fun item =>
      (Token.cutRecurrence? item.content).all fun cut => !Token.nestsPhrase (words cut.1)) =
        true := by
    decide +kernel
  rw [hitem, Option.all_some, hcut, Option.all_some] at hnests
  exact ⟨_, _, hread, rfl, rfl, fun hholds => by simp [hiff.mp hholds] at hnests⟩

/-- Of two phrases, one inside the other, one is left. -/
theorem Codec.not_holdsWhenDone_rule_nested :
    ¬∀ (codec : Codec) (line id : Text) (source : Provenance) (t : Task) (r : Recurrence),
      codec.parse line id source = some t → t.recurrence = some r →
        ¬Token.HoldsWhenDone r.rule := by
  intro h
  have hread : (Codec.mk .bare Date.first).parse
      "- [ ] Water 🔁 daily when when done done".toList [] {} =
      some { id := [], description := "Water".toList,
             recurrence := some ⟨"daily when done".toList, true⟩,
             sourceText := "- [ ] Water 🔁 daily when when done done".toList } := by decide +kernel
  refine h _ _ _ _ _ _ hread rfl ?_
  exact ⟨"daily ".toList, "when".toList, " ".toList, "done".toList, [], by decide, by decide,
    ⟨by decide, forall_mem_of_all (by decide)⟩, by decide, by decide +kernel, rfl⟩

end Checklist
