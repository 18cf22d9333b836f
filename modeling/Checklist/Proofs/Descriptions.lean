import Checklist.Proofs.Rereading
import Checklist.Proofs.Spans

/-!
# Descriptions — what is left of a content when its tokens are taken out

The data of a task are read off the content as it stands, but the description is what a chain of
scanners leaves of it, each of them reading what the one before it left. A span that was taken out
can so bring ordinary text to the start of a word, or a sign next to a date, and a scanner that
comes later takes for a token what was none. The description is the content without its tokens
exactly when this does not happen (`description_eq_iff`).

The route: taking out spans of other kinds does not hide a token (`length_found_le`); so a scanner
finds the tokens of the content in what is left of it, and takes out their spans, or it finds more
(`found_eq_or_lt`). Signs are not made or lost on the way but with the tokens that they belong to,
so a description with all signs that it should have tells that no scanner found more.
-/

namespace Checklist

open Text Scanner Chunk

/-! ## One scanner on a row of chunks -/

/-- The scanner reads the tokens of that kind, also when some others are taken out: then it can find
more of them, but only where no other sign is near. -/
structure TokenKind.ReadBy {α : Type} (kind : TokenKind) (style : TagStyle) (out : List TokenKind)
    (scan : Scanner α) : Prop extends Lawful scan where
  ends : kind.scan style = scan.ends
  firm : scan.Firm
  new : ∀ {fresh : Bool} {before before' : Option Char} {c : Char} {chunks : List Chunk} {value : α}
    {rest : Text}, Chunked style fresh (some c) chunks → scan before (c :: row chunks) = none →
    scan before' (c :: rowWithout out chunks) = some (value, rest) →
    ∃ u, rowWithout out chunks = u ++ rest ∧ ∀ d ∈ u, endsRule d = false

section Walk

variable {α : Type} {scan : Scanner α} {style : TagStyle} {kind : TokenKind}
  {out : List TokenKind} {fresh : Bool} {before before' : Option Char} {chunks : List Chunk}

/-- The tokens of the text, of which the first `skip` characters belong to one found before. -/
def found (scan : Scanner α) (skip : Nat) (before : Option Char) (s : Text) : List α :=
  (scan.piecesFrom skip before s).filterMap value?

/-- What the text becomes when its tokens are blanked out. -/
def left (scan : Scanner α) (before : Option Char) (s : Text) : Text :=
  (scan.piecesFrom 0 before s).map shown

theorem found_of_some {c : Char} {u rest : Text} {value : α}
    (h : scan before (c :: (u ++ rest)) = some (value, rest)) :
    found scan 0 before (c :: (u ++ rest)) = value :: found scan u.length (some c) (u ++ rest) := by
  have hskip : (u ++ rest).length - rest.length = u.length := by
    rw [List.length_append, Nat.add_sub_cancel]
  rw [found, piecesFrom, h]
  simp only [hskip]
  rfl

theorem found_of_none {c : Char} {s : Text} (h : scan before (c :: s) = none) :
    found scan 0 before (c :: s) = found scan 0 (some c) s := by
  rw [found, piecesFrom_of_none h]
  rfl

/-- Clearing leaves the first character of a row, or puts a space in its place. -/
theorem continues_row (out : List TokenKind) (chunks : List Chunk) :
    Continues (row chunks) (rowWithout out chunks) := by
  cases chunks with
  | nil => exact .inl rfl
  | cons chunk chunks =>
      cases chunk with
      | plain c => exact .inl rfl
      | span kind sign tail =>
          by_cases hout : kind ∈ out
          · exact .inr (by rw [rowWithout_span_of_mem hout]; rfl)
          · exact .inl (by rw [rowWithout_span_of_not_mem hout]; rfl)

namespace TokenKind.ReadBy

theorem scan_eq_none (hread : kind.ReadBy style out scan) {s : Text}
    (h : kind.scan style before s = none) : scan before s = none := by
  rw [hread.ends] at h
  exact Option.map_eq_none_iff.mp h

theorem startsWith (hread : kind.ReadBy style out scan) : scan.StartsWith kind.isSign :=
  fun before c s hc => hread.scan_eq_none (kind.scan_startsWith style before c s hc)

/-- A token of the row is the same token of what is left of the row. -/
theorem exists_value (hread : kind.ReadBy style out scan) {sign : Char} {tail : Text}
    (hscan : kind.scan style before (sign :: (tail ++ row chunks)) = some ((), row chunks)) :
    ∃ value, ∀ (kinds : List TokenKind) (before' : Option Char), kind ∉ kinds →
      (before.all isBlank = true → before'.all isBlank = true) →
      scan.piecesFrom 0 before' (rowWithout kinds (.span kind sign tail :: chunks)) =
        .token value :: scan.piecesFrom 0 (sign :: tail).getLast? (rowWithout kinds chunks) := by
  rw [hread.ends] at hscan
  obtain ⟨⟨value, rest⟩, hvalue, heq⟩ := Option.map_eq_some_iff.mp hscan
  obtain ⟨-, rfl⟩ := Prod.mk.inj heq
  refine ⟨value, fun kinds before' hkinds hbefore => ?_⟩
  have hfirm := hread.firm hvalue hbefore (continues_row kinds chunks)
  rw [rowWithout_span_of_not_mem hkinds, ← List.cons_append, piecesFrom_of_some hfirm]

/-- A span of another kind is passed over. -/
theorem piecesFrom_span (hread : kind.ReadBy style out scan) {other : TokenKind}
    (hne : other ≠ kind)
    {sign : Char} {tail : Text} (hsign : other.isSign sign = true)
    (htail : ∀ c ∈ tail, ∀ k : TokenKind, k.isSign c = true → k = other) {kinds : List TokenKind}
    (hkinds : other ∉ kinds) (before : Option Char) (chunks : List Chunk) :
    scan.piecesFrom 0 before (rowWithout kinds (.span other sign tail :: chunks)) =
      (sign :: tail).map .plain ++
        scan.piecesFrom 0 (sign :: tail).getLast? (rowWithout kinds chunks) := by
  rw [rowWithout_span_of_not_mem hkinds, ← List.cons_append,
    piecesFrom_append_of_unsigned hread.startsWith (isSign_of_mem_span hsign htail hne)]
  simp [List.getLast?_cons]

/-- A span that is taken out is passed over. -/
theorem piecesFrom_out (hread : kind.ReadBy style out scan) {other : TokenKind} {sign : Char}
    {tail : Text} {kinds : List TokenKind} (hkinds : other ∈ kinds) (before : Option Char)
    (chunks : List Chunk) :
    scan.piecesFrom 0 before (rowWithout kinds (.span other sign tail :: chunks)) =
      .plain ' ' :: scan.piecesFrom 0 (some ' ') (rowWithout kinds chunks) := by
  rw [rowWithout_span_of_mem hkinds, piecesFrom_of_none (hread.blank isBlank_space)]

/-- What the scanner finds in a row, chunk by chunk. -/
theorem found_span (hread : kind.ReadBy style out scan) {other : TokenKind} (hne : other ≠ kind)
    {sign : Char} {tail : Text} (hsign : other.isSign sign = true)
    (htail : ∀ c ∈ tail, ∀ k : TokenKind, k.isSign c = true → k = other) {kinds : List TokenKind}
    (hkinds : other ∉ kinds) (before : Option Char) (chunks : List Chunk) :
    found scan 0 before (rowWithout kinds (.span other sign tail :: chunks)) =
      found scan 0 (sign :: tail).getLast? (rowWithout kinds chunks) := by
  rw [found, hread.piecesFrom_span hne hsign htail hkinds, List.filterMap_append,
    filterMap_value?_plain]
  rfl

theorem found_out (hread : kind.ReadBy style out scan) {other : TokenKind} {sign : Char}
    {tail : Text}
    {kinds : List TokenKind} (hkinds : other ∈ kinds) (before : Option Char) (chunks : List Chunk) :
    found scan 0 before (rowWithout kinds (.span other sign tail :: chunks)) =
      found scan 0 (some ' ') (rowWithout kinds chunks) := by
  rw [found, hread.piecesFrom_out hkinds]
  rfl

/-- A token that is new is one more, for it holds no other: what the walk finds behind it is not
less than what it finds in the row. -/
theorem length_found_lt_of_new (hread : kind.ReadBy style out scan) {c : Char} {value : α}
    {rest : Text}
    (hrest : Chunked style fresh (some c) chunks) (hscan : scan before (c :: row chunks) = none)
    (hscan' : scan before' (c :: rowWithout out chunks) = some (value, rest))
    (hle : ∀ skip, (∀ d ∈ (rowWithout out chunks).take skip, endsRule d = false) →
      (found scan 0 (some c) (row chunks)).length ≤
        (found scan skip (some c) (rowWithout out chunks)).length) :
    (found scan 0 (some c) (row chunks)).length <
      (found scan 0 before' (c :: rowWithout out chunks)).length := by
  obtain ⟨u, hu, hunsigned⟩ := hread.new hrest hscan hscan'
  rw [hu] at hscan'
  rw [hu, found_of_some hscan', List.length_cons, ← hu]
  refine Nat.lt_succ_of_le (hle u.length ?_)
  rw [hu, List.take_left]
  exact hunsigned

/-- **Taking out spans of other kinds hides no token.** -/
theorem length_found_le (hread : kind.ReadBy style out scan) (hkind : kind ≠ .recurrence)
    (hout : kind ∉ out) (h : Chunked style fresh before chunks) (skip : Nat)
    (hbefore : before.all isBlank = true → before'.all isBlank = true)
    (hskip : ∀ d ∈ (rowWithout out chunks).take skip, endsRule d = false) :
    (found scan 0 before (row chunks)).length ≤
      (found scan skip before' (rowWithout out chunks)).length := by
  have hspace : (some ' ').all isBlank = true := isBlank_space
  induction h generalizing skip before' with
  | nil => exact Nat.zero_le _
  | @plain fresh before c chunks hnone hrest ih =>
      have hscan := hread.scan_eq_none (hnone kind (absurd · hkind))
      rw [row_plain, rowWithout_plain, found_of_none hscan]
      -- While characters are skipped they belong to a token that is counted already.
      cases skip with
      | succ skip =>
          exact ih skip id fun d hd => hskip d (List.mem_cons_of_mem c hd)
      | zero =>
          cases hscan' : scan before' (c :: rowWithout out chunks) with
          | none =>
              rw [found_of_none hscan']
              exact ih 0 id (by simp)
          | some token =>
              obtain ⟨value, rest⟩ := token
              -- A token that was not there before is one more, whatever it covers.
              exact (hread.length_found_lt_of_new hrest hscan hscan' fun skip => ih skip id).le
  | @span fresh before other sign tail chunks hlive hscan hsign htail hrest ih =>
      by_cases hother : other ∈ out
      · have hne : other ≠ kind := fun heq => hout (heq ▸ hother)
        rw [row, hread.found_span hne hsign htail List.not_mem_nil, ← row]
        cases skip with
        | succ skip =>
            rw [rowWithout_span_of_mem hother] at hskip ⊢
            exact ih skip (fun _ => hspace) fun d hd => hskip d (List.mem_cons_of_mem ' ' hd)
        | zero =>
            rw [hread.found_out hother]
            exact ih 0 (fun _ => hspace) (by simp)
      · -- The sign of a span that stays is not in a token that was found before.
        obtain rfl : skip = 0 := by
          cases skip with
          | zero => rfl
          | succ skip =>
              have := hskip sign
                (by rw [rowWithout_span_of_not_mem hother]; exact List.mem_cons_self)
              rw [TokenKind.endsRule_of_isSign hsign] at this
              exact Bool.noConfusion this
        by_cases hne : other = kind
        -- A span of the scanner's own kind is a token in both rows.
        · subst hne
          obtain ⟨value, hvalue⟩ := hread.exists_value hscan
          rw [row, found, found, hvalue [] before List.not_mem_nil id,
            hvalue out before' hother hbefore]
          exact Nat.succ_le_succ (ih 0 id (by simp))
        · rw [row, hread.found_span hne hsign htail List.not_mem_nil, ← row,
            hread.found_span hne hsign htail hother]
          exact ih 0 id (by simp)

/-- **A scanner takes out its spans, or it finds more than its tokens.** -/
theorem found_eq_or_lt (hread : kind.ReadBy style out scan) (hkind : kind ≠ .recurrence)
    (hout : kind ∉ out) (h : Chunked style fresh before chunks)
    (hbefore : before.all isBlank = true → before'.all isBlank = true) :
    (found scan 0 before' (rowWithout out chunks) = found scan 0 before (row chunks) ∧
      left scan before' (rowWithout out chunks) = rowWithout (out ++ [kind]) chunks) ∨
    (found scan 0 before (row chunks)).length <
      (found scan 0 before' (rowWithout out chunks)).length := by
  have hspace : (some ' ').all isBlank = true := isBlank_space
  induction h generalizing before' with
  | nil => exact .inl ⟨rfl, rfl⟩
  | @plain fresh before c chunks hnone hrest ih =>
      have hscan := hread.scan_eq_none (hnone kind (absurd · hkind))
      rw [row_plain, rowWithout_plain, found_of_none hscan]
      -- The two walks go side by side until the second one meets a token at a plain character.
      cases hscan' : scan before' (c :: rowWithout out chunks) with
      | none =>
          rw [found_of_none hscan', left, piecesFrom_of_none hscan']
          exact (ih id).imp_left (And.imp_right (congrArg (c :: ·)))
      | some token =>
          obtain ⟨value, rest⟩ := token
          exact .inr (hread.length_found_lt_of_new hrest hscan hscan' fun skip =>
            hread.length_found_le hkind hout hrest skip id)
  | @span fresh before other sign tail chunks hlive hscan hsign htail hrest ih =>
      by_cases hother : other ∈ out
      · have hne : other ≠ kind := fun heq => hout (heq ▸ hother)
        rw [row, hread.found_span hne hsign htail List.not_mem_nil, ← row,
          hread.found_out hother, left,
          hread.piecesFrom_out hother, rowWithout_span_of_mem (List.mem_append_left _ hother)]
        exact (ih fun _ => hspace).imp_left (And.imp_right (congrArg (' ' :: ·)))
      · by_cases hne : other = kind
        · subst hne
          obtain ⟨value, hvalue⟩ := hread.exists_value hscan
          rw [row, found, found, left, hvalue [] before List.not_mem_nil id,
            hvalue out before' hother hbefore, rowWithout_span_of_mem (by simp)]
          -- The token is taken out in both; behind it the first case goes on or the second.
          rcases ih id with ⟨hfound, hleft⟩ | hlt
          · exact .inl ⟨congrArg (value :: ·) hfound, congrArg (' ' :: ·) hleft⟩
          · exact .inr (Nat.succ_lt_succ hlt)
        · have hkinds : other ∉ out ++ [kind] := by simp [hne, hother]
          rw [row, hread.found_span hne hsign htail List.not_mem_nil, ← row,
            hread.found_span hne hsign htail hother, left,
            hread.piecesFrom_span hne hsign htail hother,
            rowWithout_span_of_not_mem hkinds, List.map_append, map_shown_plain]
          exact (ih id).imp_left (And.imp_right (congrArg ((sign :: tail) ++ ·)))

end TokenKind.ReadBy

/-! ## The four scanners of a description -/

/-- A token that no sign closes holds none but its own, wherever it is found. -/
theorem TokenKind.readBy_of_closing (hl : scan.Lawful) (hf : scan.Firm)
    (hends : kind.scan style = scan.ends) (hclosing : kind.closing style = [])
    (out : List TokenKind) : kind.ReadBy style out scan where
  toLawful := hl
  ends := hends
  firm := hf
  new := by
    intro fresh before before' c chunks value rest _ _ hscan
    have hkind : kind.scan style before' (c :: rowWithout out chunks) = some ((), rest) := by
      rw [hends, Scanner.ends, hscan]
      rfl
    obtain ⟨-, u, hu, hunsigned⟩ := kind.scan_eq_some hkind
    exact ⟨u, by rw [hu, hclosing, List.nil_append], hunsigned⟩

/-- A name and the sign behind it are not made by taking out spans. -/
theorem exists_row_eq_of_rowWithout (h : Chunked style fresh before chunks) {name rest : Text}
    (hname : ∀ c ∈ name, Token.isTagChar c = true)
    (heq : rowWithout out chunks = name ++ Marker.tag :: rest) :
    ∃ rest, row chunks = name ++ Marker.tag :: rest := by
  have hspace : ' ' ≠ Marker.tag := by decide
  induction h generalizing name with
  | nil => exact absurd heq (by simp)
  | @plain fresh before c chunks hnone hrest ih =>
      rw [rowWithout_plain] at heq
      rw [row_plain]
      cases name with
      | nil => exact ⟨row chunks, by rw [(List.cons.inj heq).1]; rfl⟩
      | cons d name =>
          obtain ⟨rfl, hchunks⟩ := List.cons.inj heq
          obtain ⟨rest', hrest'⟩ := ih (fun e he => hname e (List.mem_cons_of_mem c he)) hchunks
          exact ⟨rest', by rw [hrest']; rfl⟩
  | @span fresh before kind sign tail chunks hlive hscan hsign htail hrest ih =>
      -- A span that is out left a space, and one that stays begins with a sign; a name has neither.
      by_cases hkind : kind ∈ out
      · rw [rowWithout_span_of_mem hkind] at heq
        cases name with
        | nil => exact absurd (List.cons.inj heq).1 hspace
        | cons d name =>
            have := hname d (by simp)
            rw [← (List.cons.inj heq).1, Token.isTagChar_space] at this
            exact Bool.noConfusion this
      · rw [rowWithout_span_of_not_mem hkind] at heq
        cases name with
        | nil => exact ⟨tail ++ row chunks, by rw [row_span, (List.cons.inj heq).1]; rfl⟩
        | cons d name =>
            have := hname d (by simp)
            rw [← (List.cons.inj heq).1,
              (class_of_endsRule (TokenKind.endsRule_of_isSign hsign)).2.2.2.1] at this
            exact Bool.noConfusion this

namespace TokenKind

theorem readBy_priority (style : TagStyle) (out : List TokenKind) :
    priority.ReadBy style out Token.priority :=
  readBy_of_closing Token.priority_separable.toLawful Token.priority_firm rfl rfl out

theorem readBy_date (style : TagStyle) (out : List TokenKind) :
    date.ReadBy style out Token.date :=
  readBy_of_closing Token.date_separable.toLawful Token.date_firm rfl rfl out

theorem readBy_dependency (style : TagStyle) (out : List TokenKind) :
    dependency.ReadBy style out Token.dependency :=
  readBy_of_closing Token.dependency_separable.toLawful Token.dependency_firm rfl rfl out

theorem readBy_tag (style : TagStyle) (out : List TokenKind) :
    tag.ReadBy style out (Token.tag style) := by
  cases style with
  | bare =>
      exact readBy_of_closing (Token.tag_separable .bare).toLawful (Token.tag_firm .bare) rfl rfl out
  | wrapped =>
      refine ⟨(Token.tag_separable .wrapped).toLawful, rfl, Token.tag_firm .wrapped, ?_⟩
      intro fresh before before' c chunks value rest hrest hnone hscan
      -- a tag that is closed behind the spans was closed before they were taken out
      have hscan : Token.wrappedTag before' (c :: rowWithout out chunks) = some (value, rest) :=
        hscan
      obtain ⟨hc, hne, hname, heq⟩ := Token.wrappedTag_eq_some_iff.mp hscan
      obtain ⟨rest', hrow⟩ := exists_row_eq_of_rowWithout hrest hname heq
      have hsome : Token.wrappedTag before (c :: row chunks) = some (value, rest') :=
        Token.wrappedTag_eq_some_iff.mpr ⟨hc, hne, hname, hrow⟩
      exact absurd (hnone.symm.trans hsome) (by simp)

end TokenKind

/-! ## Counting signs -/

/-- The characters of a class are left, but those in tokens, which have the same number of them. -/
theorem countP_left {p : Char → Bool} {m : Nat} (hspace : p ' ' = false)
    (htoken : ∀ {before : Option Char} {c : Char} {s rest : Text} {value : α},
      scan before (c :: s) = some (value, rest) → ∃ u, s = u ++ rest ∧ (c :: u).countP p = m)
    (before : Option Char) (s : Text) :
    (left scan before s).countP p + m * (found scan 0 before s).length = s.countP p := by
  -- The induction is on the length of the text, since a token takes several characters at once.
  match s with
  | [] => rfl
  | c :: s =>
      cases hscan : scan before (c :: s) with
      | none =>
          have ih := countP_left hspace htoken (some c) s
          rw [found_of_none hscan, left, piecesFrom_of_none hscan, List.map_cons, ← left,
            List.countP_cons, List.countP_cons, ← ih, shown]
          omega
      | some token =>
          obtain ⟨value, rest⟩ := token
          obtain ⟨u, hs, hcount⟩ := htoken hscan
          have hlen : rest.length ≤ s.length := by
            have := congrArg List.length hs
            rw [List.length_append] at this
            omega
          have ih := countP_left hspace htoken (c :: u).getLast? rest
          rw [hs] at hscan ⊢
          have hpieces := piecesFrom_of_some (w := u) hscan
          rw [← List.cons_append, found, left, hpieces, List.countP_append, hcount, ← ih]
          simp only [List.map_cons, shown, List.countP_cons, hspace, List.filterMap_cons, value?,
            List.length_cons, left, found, Bool.false_eq_true, if_false, Nat.mul_succ]
          omega
termination_by s.length

/-- The signs in a span: those of its own kind, and no other. -/
theorem TokenKind.countP_span {c : Char} {u : Text} (hsign : kind.isSign c = true)
    (hu : ∀ d ∈ u, endsRule d = false) (other : TokenKind) :
    (c :: (u ++ kind.closing style)).countP other.isSign =
      if other = kind then 1 + (kind.closing style).length else 0 := by
  have hclosing : ∀ d ∈ kind.closing style, kind.isSign d = true := by
    intro d hd
    obtain ⟨rfl, rfl⟩ := TokenKind.eq_of_mem_closing hd
    decide
  have hunsigned : ∀ d ∈ u, other.isSign d = false := fun d hd =>
    TokenKind.isSign_eq_false (hu d hd)
  have hnone : u.countP other.isSign = 0 := List.countP_eq_zero.mpr (by simpa using hunsigned)
  by_cases hkind : other = kind
  · subst hkind
    rw [if_pos rfl, List.countP_cons_of_pos hsign, List.countP_append, hnone,
      List.countP_eq_length.mpr hclosing]
    omega
  -- What is in a span is its sign, its value and what closes it.
  · rw [if_neg hkind, List.countP_eq_zero]
    intro d hd hother
    rcases List.mem_cons.mp hd with rfl | hd
    · exact hkind (TokenKind.eq_of_isSign hsign hother)
    · rcases List.mem_append.mp hd with hd | hd
      · rw [hunsigned d hd] at hother
        exact Bool.noConfusion hother
      · exact hkind (TokenKind.eq_of_isSign (hclosing d hd) hother)

namespace TokenKind.ReadBy

/-- A scanner takes signs away with its tokens, all of them its own. -/
theorem countP_blankOut (hread : kind.ReadBy style out scan) (other : TokenKind) (s : Text) :
    (scan.blankOut s).countP other.isSign +
        (if other = kind then 1 + (kind.closing style).length else 0) * (scan.tokens s).length =
      s.countP other.isSign := by
  rw [blankOut_eq_map, tokens_eq_filterMap]
  refine countP_left (by cases other <;> decide) ?_ none s
  intro before c s rest value hscan
  have hkind : kind.scan style before (c :: s) = some ((), rest) := by
    rw [hread.ends, Scanner.ends, hscan]
    rfl
  obtain ⟨hsign, u, hs, hu⟩ := kind.scan_eq_some hkind
  exact ⟨u ++ kind.closing style, by rw [hs, List.append_assoc],
    TokenKind.countP_span hsign hu other⟩

theorem countP_blankOut_of_ne (hread : kind.ReadBy style out scan) {other : TokenKind}
    (hne : other ≠ kind) (s : Text) :
    (scan.blankOut s).countP other.isSign = s.countP other.isSign := by
  rw [← hread.countP_blankOut other s, if_neg hne, Nat.zero_mul, Nat.add_zero]

end TokenKind.ReadBy

/-- Taking out spans takes out the signs of their kinds and no other. -/
theorem countP_rowWithout (h : Chunked style fresh before chunks) {kinds : List TokenKind}
    (hkinds : kind ∈ kinds ↔ kind ∈ out) :
    (rowWithout kinds chunks).countP kind.isSign = (rowWithout out chunks).countP kind.isSign := by
  induction h with
  | nil => rfl
  | plain hnone hrest ih =>
      rw [rowWithout_plain, rowWithout_plain, List.countP_cons, ih, List.countP_cons]
  | @span fresh before other sign tail chunks hlive hscan hsign htail hrest ih =>
      have hspan : ∀ kinds : List TokenKind,
          (rowWithout kinds (.span other sign tail :: chunks)).countP kind.isSign =
            (if other ∈ kinds then 0 else (sign :: tail).countP kind.isSign) +
              (rowWithout kinds chunks).countP kind.isSign := by
        intro kinds
        have hspace : kind.isSign ' ' = false := by cases kind <;> decide
        split
        · next hmem =>
            rw [rowWithout_span_of_mem hmem, List.countP_cons_of_neg (by simp [hspace]),
              Nat.zero_add]
        · next hmem =>
            rw [rowWithout_span_of_not_mem hmem, ← List.cons_append, List.countP_append]
      rw [hspan, hspan, ih]
      by_cases hother : other = kind
      · subst hother
        simp only [hkinds]
      · -- a span of another kind holds no sign of this one, so it does not matter
        have hnone : (sign :: tail).countP kind.isSign = 0 :=
          List.countP_eq_zero.mpr fun c hc => by
            simp [isSign_of_mem_span hsign htail hother c hc]
        rw [hnone]
        simp

/-! ## One stage of the chain -/

/-- A scanner finds the tokens of the content in what is left of it, and takes out their spans, or
it finds more. -/
theorem TokenKind.ReadBy.tokens_eq_or_lt (hread : kind.ReadBy style out scan)
    (hkind : kind ≠ .recurrence) (hout : kind ∉ out) (h : Chunked style true none chunks) :
    (scan.tokens (rowWithout out chunks) = scan.tokens (row chunks) ∧
      scan.blankOut (rowWithout out chunks) = rowWithout (out ++ [kind]) chunks) ∨
    (scan.tokens (row chunks)).length < (scan.tokens (rowWithout out chunks)).length := by
  rw [tokens_eq_filterMap, tokens_eq_filterMap, blankOut_eq_map]
  exact hread.found_eq_or_lt hkind hout h id

/-- A scanner with the same tokens takes out their spans. -/
theorem TokenKind.ReadBy.blankOut_eq (hread : kind.ReadBy style out scan)
    (hkind : kind ≠ .recurrence) (hout : kind ∉ out) (h : Chunked style true none chunks)
    (htokens : scan.tokens (rowWithout out chunks) = scan.tokens (row chunks)) :
    scan.blankOut (rowWithout out chunks) = rowWithout (out ++ [kind]) chunks := by
  rcases hread.tokens_eq_or_lt hkind hout h with ⟨-, hblankOut⟩ | hlt
  · exact hblankOut
  · rw [htokens] at hlt
    exact absurd hlt (Nat.lt_irrefl _)

/-- The signs that should be left of a content are those that a scanner leaves of it. -/
theorem TokenKind.ReadBy.countP_rowWithout_all (hread : kind.ReadBy style [] scan)
    (hkind : kind ≠ .recurrence) (h : Chunked style true none chunks) :
    (rowWithout TokenKind.all chunks).countP kind.isSign =
      (scan.blankOut (row chunks)).countP kind.isSign := by
  have hblankOut : scan.blankOut (row chunks) = rowWithout [kind] chunks :=
    hread.blankOut_eq hkind List.not_mem_nil h rfl
  rw [hblankOut]
  exact countP_rowWithout h (by simp [kind.mem_all])

/-- A scanner that leaves the signs that should be left finds no more than the tokens. -/
theorem TokenKind.ReadBy.tokens_eq_of_countP (hread : ∀ out, kind.ReadBy style out scan)
    (hkind : kind ≠ .recurrence) (hout : kind ∉ out) (h : Chunked style true none chunks)
    (hcount : (scan.blankOut (rowWithout out chunks)).countP kind.isSign =
      (rowWithout TokenKind.all chunks).countP kind.isSign) :
    scan.tokens (rowWithout out chunks) = scan.tokens (row chunks) := by
  rcases (hread out).tokens_eq_or_lt hkind hout h with ⟨htokens, -⟩ | hlt
  · exact htokens
  · -- Each token takes as many signs away, and there were as many of them.
    have hleft := (hread out).countP_blankOut kind (rowWithout out chunks)
    have hrow := (hread []).countP_blankOut kind (row chunks)
    have hsame : (rowWithout out chunks).countP kind.isSign = (row chunks).countP kind.isSign :=
      countP_rowWithout h (by simp [hout])
    rw [hcount, (hread []).countP_rowWithout_all hkind h, hsame, ← hrow, if_pos rfl] at hleft
    have hlength : (scan.tokens (rowWithout out chunks)).length =
        (scan.tokens (row chunks)).length :=
      Nat.eq_of_mul_eq_mul_left (by omega) (Nat.add_left_cancel hleft)
    omega

end Walk

/-! ## The description that is left -/

/-- The description that a text makes. -/
def describe (s : Text) : Text := if (collapse s).isEmpty then untitled else collapse s

/-- A description has the signs of its text. -/
theorem countP_describe (kind : TokenKind) (s : Text) :
    (describe s).countP kind.isSign = s.countP kind.isSign := by
  have hwords : ∀ t : Text, t.countP kind.isSign = (words t).flatten.countP kind.isSign := by
    intro t
    rw [flatten_words, List.countP_filter]
    refine List.countP_congr fun c _ => ?_
    cases hc : isBlank c with
    | false => simp
    | true =>
        simp [TokenKind.isSign_eq_false (Token.endsRule_of_isBlank hc)]
  have huntitled : untitled.countP kind.isSign = 0 := by cases kind <;> decide
  rw [describe, hwords s]
  split
  · next hempty =>
      rw [List.isEmpty_iff, collapse_eq_nil_iff] at hempty
      rw [huntitled, hempty]
      rfl
  · rw [hwords, words_collapse]

/-- Whether no scanner finds other tokens in what the scanners before it leave of a content than in
the content itself. -/
structure Undisturbed (style : TagStyle) (content : Text) : Prop where
  dates : Token.date.tokens (clear style [.recurrence, .priority] content) =
    Token.date.tokens content
  tags : (Token.tag style).tokens (clear style [.recurrence, .priority, .date] content) =
    (Token.tag style).tokens content
  dependencies :
    Token.dependency.tokens (clear style [.recurrence, .priority, .date, .tag] content) =
      Token.dependency.tokens content

instance (style : TagStyle) (content : Text) : Decidable (Undisturbed style content) :=
  decidable_of_iff
    (Token.date.tokens (clear style [.recurrence, .priority] content) = Token.date.tokens content ∧
      (Token.tag style).tokens (clear style [.recurrence, .priority, .date] content) =
        (Token.tag style).tokens content ∧
      Token.dependency.tokens (clear style [.recurrence, .priority, .date, .tag] content) =
        Token.dependency.tokens content)
    ⟨fun ⟨hdates, htags, hdependencies⟩ => ⟨hdates, htags, hdependencies⟩,
      fun ⟨hdates, htags, hdependencies⟩ => ⟨hdates, htags, hdependencies⟩⟩

section Stages

variable {style : TagStyle} {fresh : Bool} {before : Option Char} {chunks : List Chunk}

theorem rowWithout_of_not_fresh (h : Chunked style false before chunks) :
    rowWithout [.recurrence] chunks = row chunks := by
  generalize hfresh : false = fresh at h
  induction h with
  | nil => rfl
  | plain hnone hrest ih => rw [rowWithout_plain, row_plain, ih hfresh]
  | @span fresh before kind sign tail chunks hlive hscan hsign htail hrest ih =>
      have hne : kind ∉ [TokenKind.recurrence] := fun hmem => by
        simp [hlive (List.mem_singleton.mp hmem)] at hfresh
      rw [rowWithout_span_of_not_mem hne, row_span, ih (by simp [← hfresh])]

/-- What holds no sign of a recurrence is left as it is. -/
theorem parseRecurrence_append_left {u : Text} (hu : Marker.recurrence ∉ u) (s line : Text) :
    (parseRecurrence (u ++ s) line).2 = u ++ (parseRecurrence s line).2 := by
  have happend := cutRecurrence?_append_left hu s
  cases hcut : Token.cutRecurrence? s with
  | none =>
      rw [hcut, Option.map_none] at happend
      rw [parseRecurrence_of_not_mem hcut, parseRecurrence_of_not_mem happend]
  | some found =>
      obtain ⟨rule, rest⟩ := found
      rw [hcut, Option.map_some] at happend
      rw [parseRecurrence_of_cut hcut, parseRecurrence_of_cut happend]

/-- Cutting the first recurrence out is the first stage. -/
theorem parseRecurrence_row (h : Chunked style true before chunks) (line : Text) :
    (parseRecurrence (row chunks) line).2 = rowWithout [.recurrence] chunks := by
  generalize hfresh : true = fresh at h
  induction h with
  | nil => rfl
  | @plain fresh before c chunks hnone hrest ih =>
      have hc := TokenKind.recurrence_not_mem_of_scan_eq_none
        (hnone .recurrence fun _ => hfresh.symm)
      rw [rowWithout_plain, ← ih hfresh]
      exact parseRecurrence_append_left hc (row chunks) line
  | @span fresh before kind sign tail chunks hlive hscan hsign htail hrest ih =>
      rw [row_span]
      by_cases hkind : kind = .recurrence
      · subst hkind
        obtain ⟨rfl, hrest'⟩ := TokenKind.scan_recurrence_eq_some_iff.mp hscan
        rw [rowWithout_span_of_mem (List.mem_singleton_self _),
          rowWithout_of_not_fresh (by simpa using hrest),
          parseRecurrence_of_cut (cutRecurrence?_cons _),
          hrest']
      · have hmem : Marker.recurrence ∉ sign :: tail := fun hmem =>
          absurd (isSign_of_mem_span hsign htail hkind _ hmem) (by decide)
        rw [rowWithout_span_of_not_mem (by simpa using hkind), ← ih (by simp [← hfresh, hkind])]
        exact parseRecurrence_append_left hmem (row chunks) line

/-- No sign of a priority is left. -/
theorem countP_blankOut_priority (s : Text) :
    (Token.priority.blankOut s).countP TokenKind.priority.isSign = 0 := by
  refine List.countP_eq_zero.mpr fun c hc hsign => ?_
  rcases of_mem_blankOut hc with rfl | ⟨-, before, rest, hnone⟩
  · exact absurd hsign (by decide)
  · have hsome : Token.priority before (c :: rest) = some _ :=
      Token.priority_eq_some_iff.mpr ⟨hsign, rfl⟩
    exact absurd (hnone.symm.trans hsome).symm (Option.some_ne_none _)

/-- Taking the priorities out is the second stage, whatever stands in the content. -/
theorem blankOut_priority_row (h : Chunked style true none chunks) :
    Token.priority.blankOut (rowWithout [.recurrence] chunks) =
      rowWithout [.recurrence, .priority] chunks := by
  have hread := TokenKind.readBy_priority style
  have hkind : TokenKind.priority ≠ .recurrence := by decide
  have hout : TokenKind.priority ∉ [TokenKind.recurrence] := by decide
  refine (hread _).blankOut_eq hkind hout h
    (TokenKind.ReadBy.tokens_eq_of_countP hread hkind hout h ?_)
  rw [countP_blankOut_priority, (hread []).countP_rowWithout_all hkind h, countP_blankOut_priority]

/-- When no scanner is disturbed, each takes out the spans of its tokens. -/
theorem strip_row_of_undisturbed (h : Chunked style true none chunks)
    (hu : Undisturbed style (row chunks)) :
    strip style (rowWithout [.recurrence] chunks) = rowWithout TokenKind.all chunks := by
  obtain ⟨hdates, htags, hdependencies⟩ := hu
  rw [clear_row _ h] at hdates htags hdependencies
  have hdate : Token.date.blankOut (rowWithout [.recurrence, .priority] chunks) =
      rowWithout [.recurrence, .priority, .date] chunks :=
    (TokenKind.readBy_date style _).blankOut_eq (by decide) (by decide) h hdates
  have htag : (Token.tag style).blankOut (rowWithout [.recurrence, .priority, .date] chunks) =
      rowWithout [.recurrence, .priority, .date, .tag] chunks :=
    (TokenKind.readBy_tag style _).blankOut_eq (by decide) (by decide) h htags
  rw [strip, blankOut_priority_row h, hdate, htag]
  exact (TokenKind.readBy_dependency style _).blankOut_eq (by decide) (by decide) h hdependencies

/-- A description with the signs that it should have tells that no scanner was disturbed. -/
theorem undisturbed_of_countP (h : Chunked style true none chunks)
    (hcount : ∀ kind : TokenKind,
      (strip style (rowWithout [.recurrence] chunks)).countP kind.isSign =
        (rowWithout TokenKind.all chunks).countP kind.isSign) :
    Undisturbed style (row chunks) := by
  have hreadDate := TokenKind.readBy_date style
  have hreadTag := TokenKind.readBy_tag style
  have hreadDependency := TokenKind.readBy_dependency style
  rw [strip, blankOut_priority_row h] at hcount
  -- The scanners that come later leave the signs of a kind alone.
  have hdates : Token.date.tokens (rowWithout [.recurrence, .priority] chunks) =
      Token.date.tokens (row chunks) := by
    refine TokenKind.ReadBy.tokens_eq_of_countP hreadDate (by decide) (by decide) h ?_
    rw [← hcount .date, (hreadDependency []).countP_blankOut_of_ne (by decide),
      (hreadTag []).countP_blankOut_of_ne (by decide)]
  have hdate : Token.date.blankOut (rowWithout [.recurrence, .priority] chunks) =
      rowWithout [.recurrence, .priority, .date] chunks :=
    (hreadDate _).blankOut_eq (by decide) (by decide) h hdates
  rw [hdate] at hcount
  have htags : (Token.tag style).tokens (rowWithout [.recurrence, .priority, .date] chunks) =
      (Token.tag style).tokens (row chunks) := by
    refine TokenKind.ReadBy.tokens_eq_of_countP hreadTag (by decide) (by decide) h ?_
    rw [← hcount .tag, (hreadDependency []).countP_blankOut_of_ne (by decide)]
  have htag : (Token.tag style).blankOut (rowWithout [.recurrence, .priority, .date] chunks) =
      rowWithout [.recurrence, .priority, .date, .tag] chunks :=
    (hreadTag _).blankOut_eq (by decide) (by decide) h htags
  rw [htag] at hcount
  have hdependencies :
      Token.dependency.tokens (rowWithout [.recurrence, .priority, .date, .tag] chunks) =
        Token.dependency.tokens (row chunks) :=
    TokenKind.ReadBy.tokens_eq_of_countP hreadDependency (by decide) (by decide) h
      (hcount .dependency)
  constructor <;> rw [clear_row _ h] <;> assumption

end Stages

/-- **The description of a content is the content without its tokens, exactly when no scanner is
disturbed.** -/
theorem describe_strip_eq_iff (style : TagStyle) (content line : Text) :
    describe (strip style (parseRecurrence content line).2) =
        describe (clear style TokenKind.all content) ↔ Undisturbed style content := by
  obtain ⟨chunks, h, rfl⟩ := exists_chunked style true none content
  rw [parseRecurrence_row h, clear_row _ h]
  constructor
  · intro heq
    refine undisturbed_of_countP h fun kind => ?_
    rw [← countP_describe, heq, countP_describe]
  · intro hu
    rw [strip_row_of_undisturbed h hu]

/-- **A line is read with the description that its content has without its tokens**, if and only if
no scanner is disturbed. -/
theorem description_eq_iff {codec : Codec} {line id : Text} {source : Provenance} {t : Task}
    (h : codec.parse line id source = some t) :
    ∃ item, Item.ofLine? line = some item ∧
      (t.description = describe (clear codec.style TokenKind.all item.content) ↔
        Undisturbed codec.style item.content) := by
  obtain ⟨item, hitem, rfl⟩ := Option.map_eq_some_iff.mp h
  refine ⟨item, hitem, ?_⟩
  rw [Item.toTask_description]
  exact describe_strip_eq_iff codec.style item.content line

/-- Tokens with a space before them disturb no scanner. -/
theorem description_eq_iff_callHome : ∃ t,
    (Codec.mk .bare Date.first).parse "- [ ] Call ⏫ #home".toList [] {} = some t ∧
      t.description = "Call".toList ∧
      ∃ item, Item.ofLine? "- [ ] Call ⏫ #home".toList = some item ∧
        (t.description = describe (clear .bare TokenKind.all item.content) ↔
          Undisturbed .bare item.content) := by
  have hread : (Codec.mk .bare Date.first).parse "- [ ] Call ⏫ #home".toList [] {} =
      some { id := [], description := "Call".toList, priority := .high, tags := ["home".toList],
             sourceText := "- [ ] Call ⏫ #home".toList } := by decide +kernel
  obtain ⟨item, hitem, heq⟩ := description_eq_iff hread
  exact ⟨_, hread, rfl, item, hitem, heq⟩

/-- A word behind the sign of a priority is lost when it looks like a tag, for it becomes one when
the sign is taken out. -/
theorem not_description_eq_callHome : ∃ t,
    (Codec.mk .bare Date.first).parse "- [ ] Call ⏫#home".toList [] {} = some t ∧
      ¬∃ item, Item.ofLine? "- [ ] Call ⏫#home".toList = some item ∧
        t.description = describe (clear .bare TokenKind.all item.content) := by
  refine ⟨{ id := [], description := "Call".toList, priority := .high,
            sourceText := "- [ ] Call ⏫#home".toList }, by decide +kernel, ?_⟩
  rintro ⟨item, hitem, hdescription⟩
  have hlost : (Item.ofLine? "- [ ] Call ⏫#home".toList).all (fun item =>
      decide (describe (clear .bare TokenKind.all item.content) = "Call #home".toList)) = true := by
    decide +kernel
  rw [hitem] at hlost
  have hkept := of_decide_eq_true hlost
  rw [← hdescription] at hkept
  exact absurd hkept (by decide)

end Checklist
