import FrontEnd.Proofs.Parser.Indices
import FrontEnd.Proofs.Tree.Anchors

/-!
The layout of a source takes no part in parsing. Streams that differ in comments and in where
their tokens stand have the same tree, its anchors counted without comments, or they are
rejected for the same cause at tokens of the same rank.
-/

namespace FrontEnd

/-- As many symbols that are no comments stand before an index as its position tells. -/
theorem countP_take_of_significantIndices {list : List Symbol} {n p i : Nat}
    (h : (significantIndices n list)[p]? = some i) :
    n ≤ i ∧ i < n + list.length ∧ (list.take (i - n)).countP (!·.kind.isTrivia) = p := by
  induction list generalizing n p with
  | nil => cases h
  | cons a list ih =>
    by_cases ha : a.kind.isTrivia = true
    · have hcons : significantIndices n (a :: list) = significantIndices (n + 1) list := by
        simp [significantIndices, List.zipIdx_cons, ha]
      rw [hcons] at h
      obtain ⟨hle, hlt, hcount⟩ := ih h
      have hsucc : i - n = i - (n + 1) + 1 := by omega
      rw [hsucc, List.take_succ_cons, List.countP_cons_of_neg (by simp [ha]), List.length_cons]
      exact ⟨by omega, by omega, hcount⟩
    · rw [significantIndices_cons n list (by simpa using ha)] at h
      cases p with
      | zero =>
        cases h
        simp
      | succ p =>
        obtain ⟨hle, hlt, hcount⟩ := ih h
        have hsucc : i - n = i - (n + 1) + 1 := by omega
        rw [hsucc, List.take_succ_cons, List.countP_cons_of_pos (by simp [ha]), hcount,
          List.length_cons]
        exact ⟨by omega, by omega, rfl⟩

namespace TokenStream

/-- The tokens other than comments, the last one among them. -/
def spoken (s : TokenStream) : List Token := s.tokens.filter (!·.kind.isTrivia)

/-- Their kinds and texts. -/
def outline (s : TokenStream) : List Symbol := s.spoken.map (·.symbol)

/-- How many tokens other than comments stand before the one at the index. -/
def rank (s : TokenStream) (i : Nat) : Nat := (s.tokens.take i).countP (!·.kind.isTrivia)

/-- Parsing rejects the stream with the message at its `p`-th token that is no comment, the
first being the one at zero. -/
def FailsAt (s : TokenStream) (message : String) (p : Nat) : Prop :=
  ∃ stopped : Cursor,
    (Cursor.start s).parse = (.error ⟨.structural, message, stopped.current.location⟩, stopped) ∧
      stopped.stream = s ∧ stopped.position = p ∧ s.spoken[p]? = some stopped.current

variable {s t : TokenStream}

/-! ## The outline of a stream -/

theorem outline_eq (s : TokenStream) : s.outline = s.symbols.toList ++ [.last] := by
  rw [symbols_toList, outline, spoken, tokens, List.filter_append, List.map_append]
  rfl

theorem symbols_eq_of_outline (h : s.outline = t.outline) : s.symbols = t.symbols := by
  rw [outline_eq, outline_eq] at h
  exact Array.ext' (List.append_cancel_right h)

theorem spoken_eq (s : TokenStream) : s.spoken = s.significant.map (·.1) ++ [s.last] := by
  have hfilter (tokens : List Token) (n : Nat) :
      ((tokens.zipIdx n).filter fun t => !t.1.kind.isTrivia).map (·.1) =
        tokens.filter (!·.kind.isTrivia) := by
    induction tokens generalizing n with
    | nil => rfl
    | cons t tokens ih =>
      simp only [List.zipIdx_cons, List.filter_cons]
      split
      · rw [List.map_cons, ih]
      · exact ih (n + 1)
  rw [spoken, tokens, List.filter_append, significant, hfilter]
  rfl

/-- Up to the end, a cursor's position tells which of these tokens is the current one. -/
theorem getElem?_spoken {p : Nat} (hp : p ≤ s.symbols.size) :
    s.spoken[p]? = some ((Cursor.start s).tokenAt p).1 := by
  rw [spoken_eq, Cursor.tokenAt, Cursor.start]
  rw [← Cursor.length_significant] at hp
  rcases Nat.eq_or_lt_of_le hp with rfl | hlt
  · rw [List.getElem?_append_right (by simp)]
    simp
  · rw [List.getElem?_append_left (by simpa using hlt), List.getElem?_map,
      List.getElem?_eq_getElem hlt]
    rfl

/-- The rank of a token other than a comment is its position among these. -/
theorem getElem?_rank {i : Nat} {token : Token} (h : s.tokens[i]? = some token)
    (hk : token.kind.isTrivia = false) : s.spoken[s.rank i]? = some token := by
  obtain ⟨hlt, hget⟩ := List.getElem?_eq_some_iff.mp h
  have hsplit : s.tokens.take i ++ token :: s.tokens.drop (i + 1) = s.tokens := by
    rw [← hget, ← List.drop_eq_getElem_cons hlt, List.take_append_drop]
  have hfilter : s.spoken = (s.tokens.take i).filter (!·.kind.isTrivia) ++
      token :: (s.tokens.drop (i + 1)).filter (!·.kind.isTrivia) := by
    rw [spoken, ← List.filter_cons_of_pos (by simp [hk]), ← List.filter_append, hsplit]
  rw [hfilter, rank, List.countP_eq_length_filter, List.getElem?_append_right (Nat.le_refl _),
    Nat.sub_self]
  rfl

theorem rank_eq (s : TokenStream) {i : Nat} (hi : i ≤ s.body.length) :
    s.rank i = ((s.body.map (·.symbol)).take i).countP (!·.kind.isTrivia) := by
  rw [rank, tokens, List.take_append_of_le_length hi, ← List.map_take, List.countP_map]
  rfl

/-- The token at a position has that rank, or that of the end if it is behind it. -/
theorem rank_tokenAt (s : TokenStream) (p : Nat) :
    s.rank ((Cursor.start s).tokenAt p).2 = min p s.symbols.size := by
  rw [tokenAt_eq, ← length_indices]
  cases h : (significantIndices 0 (s.body.map (·.symbol)))[p]? with
  | some i =>
    obtain ⟨-, hi, hcount⟩ := countP_take_of_significantIndices h
    rw [List.length_map, Nat.zero_add] at hi
    obtain ⟨hp, -⟩ := List.getElem?_eq_some_iff.mp h
    rw [Option.getD_some, rank_eq s (Nat.le_of_lt hi), Nat.min_eq_left (Nat.le_of_lt hp)]
    exact hcount
  | none =>
    rw [Option.getD_none, rank_eq s (Nat.le_refl _),
      Nat.min_eq_right (List.getElem?_eq_none_iff.mp h), length_significantIndices,
      List.countP_eq_length_filter, List.take_of_length_le (by simp)]

/-! ## Rejected streams -/

theorem failsAt_of_eval {cause : Cause} {q : ParseState} (hi : s.illegal? = none)
    (h : Rule.eval s.symbols nestingLimit .unit ⟨0, 0⟩ = .failed cause q) :
    s.FailsAt cause.message q.position := by
  have hkeeps := Rule.eval_keeps s.symbols nestingLimit .unit ⟨0, 0⟩
  rw [h] at hkeeps
  exact ⟨⟨s, q.position, q.depth⟩, Cursor.parseWithin_eq_of_failed (c := Cursor.start s) hi h, rfl,
    rfl, getElem?_spoken (hkeeps.2.1 (Nat.zero_le _))⟩

theorem illegal?_eq_none_of_kind_ne (h : ∀ token ∈ s.tokens, token.kind ≠ .illegal) :
    s.illegal? = none := by
  rw [illegal?, List.find?_eq_none]
  intro token htoken
  simpa using h token (List.mem_reverse.mp htoken)

/-! ## Anchors -/

/-- The anchors of the tree are at tokens other than comments, each at the one of its rank. -/
def Ranked (s : TokenStream) (root : Tree) : Prop :=
  ∀ i ∈ root.anchors, ∃ token, s.tokens[i]? = some token ∧ token.kind.isTrivia = false ∧
    s.spoken[s.rank i]? = some token

theorem ranked_mapTokens (s : TokenStream) (root : Tree) :
    s.Ranked (root.mapTokens fun p => ((Cursor.start s).tokenAt p).2) := by
  intro i hi
  rw [Tree.anchors_mapTokens] at hi
  obtain ⟨p, -, rfl⟩ := List.mem_map.mp hi
  obtain ⟨htoken, htrivia⟩ := getElem?_tokenAt s p
  exact ⟨_, htoken, htrivia, getElem?_rank htoken htrivia⟩

end TokenStream

/-- Streams without illegal tokens whose tokens other than comments agree in kind and text,
one by one, both have trees, and these differ only in how many comments their anchors have before
them, or both are rejected with the same message at the same one of these tokens. -/
theorem parse_layout (s t : TokenStream) (hs : ∀ token ∈ s.tokens, token.kind ≠ .illegal)
    (ht : ∀ token ∈ t.tokens, token.kind ≠ .illegal) (h : s.outline = t.outline) :
    (∃ x y, parse s = .ok x ∧ parse t = .ok y ∧ x.mapTokens s.rank = y.mapTokens t.rank ∧
      s.Ranked x ∧ t.Ranked y) ∨
    ∃ message p, s.FailsAt message p ∧ t.FailsAt message p := by
  have hsymbols := TokenStream.symbols_eq_of_outline h
  have hsi := TokenStream.illegal?_eq_none_of_kind_ne hs
  have hti := TokenStream.illegal?_eq_none_of_kind_ne ht
  cases hrun : Rule.eval s.symbols nestingLimit .unit ⟨0, 0⟩ with
  | read items q =>
    have hrun' := hrun
    rw [hsymbols] at hrun'
    have hx := Cursor.parseWithin_of_read (c := Cursor.start s) hsi hrun
    have hy := Cursor.parseWithin_of_read (c := Cursor.start t) hti hrun'
    refine .inl ⟨_, _, hx, hy, ?_, s.ranked_mapTokens _, t.ranked_mapTokens _⟩
    have hrank : s.rank ∘ (fun p => ((Cursor.start s).tokenAt p).2) =
        t.rank ∘ fun p => ((Cursor.start t).tokenAt p).2 := by
      funext p
      rw [Function.comp_apply, Function.comp_apply, s.rank_tokenAt, t.rank_tokenAt, hsymbols]
    rw [Tree.mapTokens_mapTokens, Tree.mapTokens_mapTokens, hrank]
    rfl
  | failed cause q =>
    have hrun' := hrun
    rw [hsymbols] at hrun'
    exact .inr ⟨_, _, TokenStream.failsAt_of_eval hsi hrun, TokenStream.failsAt_of_eval hti hrun'⟩
  | exhausted => exact absurd hrun (Rule.eval_ne_exhausted _ _ _ _)

/-- One source with a comment in the middle of a statement, over two lines and in another file. -/
theorem parse_layout_of_comment :
    let s := lex "x = f(1) + y;" "a.hz"
    let t := lex "x = f( // one
  1) /* and */ +	y;" "b.hz"
    s.outline = t.outline ∧ s.body ≠ t.body ∧
      ∃ x y, parse s = .ok x ∧ parse t = .ok y ∧ x.mapTokens s.rank = y.mapTokens t.rank ∧
        x.anchors ≠ y.anchors := by
  intro s t
  have hs : ∀ token ∈ s.tokens, token.kind ≠ .illegal := by decide +kernel
  have ht : ∀ token ∈ t.tokens, token.kind ≠ .illegal := by decide +kernel
  have houtline : s.outline = t.outline := by decide +kernel
  have hbody : s.body ≠ t.body := by decide +kernel
  have hanchors : (parse s).toOption.map Tree.anchors ≠ (parse t).toOption.map Tree.anchors := by
    decide +kernel
  have hread : (parse s).isOk = true := by decide +kernel
  rcases parse_layout s t hs ht houtline with ⟨x, y, hx, hy, hsame, -, -⟩ | ⟨_, _, hfails, -⟩
  · refine ⟨houtline, hbody, x, y, hx, hy, hsame, fun heq => hanchors ?_⟩
    rw [hx, hy]
    exact congrArg some heq
  · obtain ⟨stopped, hparse, -⟩ := hfails
    rw [parse, hparse] at hread
    cases hread

end FrontEnd
