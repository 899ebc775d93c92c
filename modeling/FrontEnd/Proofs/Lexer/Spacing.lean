import FrontEnd.Proofs.Lexer.Lossless
import FrontEnd.Proofs.Lexer.Settled
import FrontEnd.Proofs.Parser.Indices
import FrontEnd.Proofs.Tree.Marks

/-!
Reading symbols written with spaces between them. The words and marks of the grammar, and
the tokens of any source but its comments, are readable: their lexemes before a gap are read
as them. The text of readable symbols is read as these symbols and nothing else.
-/

namespace FrontEnd

/-- Before a gap the lexeme of the symbol is read as a token of it. -/
structure Symbol.Readable (a : Symbol) : Prop where
  significant : a.kind.isTrivia = false
  legal : a.kind ≠ .illegal
  reads : ∃ c cs, a.lexeme = c :: cs ∧ ∀ rest, Gap rest →
    Piece.first c (cs ++ rest) = ⟨.token a.kind a.text.toList, a.lexeme, rest⟩

theorem Symbol.lexeme_eq_text {kind : TokenKind} (h : kind.isFixed = true ∨ kind.isPlain = true)
    (text : String) : Symbol.lexeme ⟨kind, text⟩ = text.toList := by
  cases kind <;> first | rfl | exact absurd h (by decide)

/-- A token but for a comment is written as its symbol is. -/
theorem Spells.eq_lexeme {kind : TokenKind} {text lexeme rest : List Char}
    (h : Spells kind text lexeme rest) (hk : kind.isTrivia = false) :
    lexeme = Symbol.lexeme ⟨kind, String.ofList text⟩ := by
  cases h with
  | fixed h => rw [Symbol.lexeme_eq_text (.inl h), String.toList_ofList]
  | plain h => rw [Symbol.lexeme_eq_text (.inr h), String.toList_ofList]
  | comment | docComment => cases hk
  | _ => simp [Symbol.lexeme]

namespace Piece

theorem readable_of_first {c : Char} {cs text : List Char} {kind : TokenKind}
    (h : (first c cs).reading = .token kind text) (hk : kind.isTrivia = false) :
    Symbol.Readable ⟨kind, String.ofList text⟩ := by
  obtain ⟨lexeme, hlexeme, hread⟩ := first_settles h hk
  have hsound := first_sound c cs []
  rw [Sound, h] at hsound
  have heq : Symbol.lexeme ⟨kind, String.ofList text⟩ = c :: lexeme := by
    rw [← hsound.eq_lexeme hk, hlexeme]
  refine ⟨hk, hsound.kind_ne.1, c, lexeme, heq, fun rest hrest => ?_⟩
  rw [hread rest hrest, heq, String.toList_ofList]

section Tokens

variable {c : Char} {cs lexeme rest : List Char} (fileName : String) (p : Place)

theorem tokensAt_token {kind : TokenKind} {text : List Char}
    (h : first c cs = ⟨.token kind text, lexeme, rest⟩) :
    (tokensAt fileName p (divide (c :: cs))).map (·.symbol) = ⟨kind, String.ofList text⟩ ::
      (tokensAt fileName (p.after lexeme rest) (divide rest)).map (·.symbol) := by
  rw [divide_cons, h, if_neg (by simp [isFault]), tokensAt_cons]
  simp [token?, Token.symbol]

theorem tokensAt_trivia (h : first c cs = ⟨.trivia, lexeme, rest⟩) :
    tokensAt fileName p (divide (c :: cs)) =
      tokensAt fileName (p.after lexeme rest) (divide rest) := by
  rw [divide_cons, h, if_neg (by simp [isFault]), tokensAt_cons]
  rfl

end Tokens

end Piece

/-- A token of a source was read as it tells, unless it tells of a fault. -/
theorem lex_reading {source fileName : String} {t : Token} (h : t ∈ (lex source fileName).body)
    (hlegal : t.kind ≠ .illegal) :
    ∃ c cs, (Piece.first c cs).reading = .token t.kind t.text.toList := by
  rw [lex_body] at h
  obtain ⟨⟨q, x⟩, hx, ht⟩ := List.mem_filterMap.mp h
  obtain ⟨c, cs, rfl⟩ := Piece.eq_first_of_mem_divide (Piece.mem_of_mem_placed hx)
  change (Piece.first c cs).token? fileName q = some t at ht
  unfold Piece.token? at ht
  split at ht
  · rename_i kind text hr
    cases ht
    exact ⟨c, cs, by rw [hr, String.toList_ofList]⟩
  · cases ht
    exact absurd rfl hlegal
  · cases ht

/-- A token of a source is readable, unless it tells of a fault or is a comment. -/
theorem lex_readable {source fileName : String} {t : Token} (h : t ∈ (lex source fileName).body)
    (hlegal : t.kind ≠ .illegal) (hk : t.kind.isTrivia = false) : t.symbol.Readable := by
  obtain ⟨c, cs, hread⟩ := lex_reading h hlegal
  have hreadable := Piece.readable_of_first hread hk
  rwa [String.ofList_toList] at hreadable

theorem TokenKind.first_name {k : TokenKind} (h : k.isMark = true) :
    ∃ c cs, k.name.toList = c :: cs ∧ (Piece.first c cs).reading = .token k (c :: cs) := by
  cases k <;> first | exact absurd h (by decide) | exact ⟨_, _, rfl, by decide⟩

theorem Symbol.readable_of_mark {a : Symbol} (h : a.isMark = true) : a.Readable := by
  obtain ⟨kind, text⟩ := a
  obtain ⟨hk, ht⟩ : kind.isMark = true ∧ text = kind.name := by simpa [isMark] using h
  obtain ⟨c, cs, hname, hread⟩ := TokenKind.first_name hk
  have htrivia : kind.isTrivia = false := by
    cases kind <;> first | rfl | cases hk
  have hreadable := Piece.readable_of_first hread htrivia
  rwa [← hname, String.ofList_toList, ← ht] at hreadable

namespace Symbol

/-- What stands behind a lexeme where the symbols follow. -/
def gapped : List Symbol → List Char
  | [] => []
  | a :: list => ' ' :: spaced (a :: list)

theorem gap_gapped (list : List Symbol) : Gap (gapped list) := by
  cases list with
  | nil => exact .nil
  | cons a list => exact .cons (by decide) _

theorem spaced_cons (a : Symbol) (list : List Symbol) :
    spaced (a :: list) = a.lexeme ++ gapped list := by
  cases list <;> simp [spaced, gapped, List.intercalate]

variable {a : Symbol} {list : List Symbol}

/-- Between two lexemes stands a space, which is no token. -/
theorem tokensAt_gapped {fileName : String}
    (h : ∀ p, (Piece.tokensAt fileName p (Piece.divide (spaced list))).map (·.symbol) = list)
    (p : Place) :
    (Piece.tokensAt fileName p (Piece.divide (gapped list))).map (·.symbol) = list := by
  cases list with
  | nil => rfl
  | cons a list =>
    rw [gapped, Piece.tokensAt_trivia fileName p rfl]
    exact h _

/-- The tokens of spaced symbols are those symbols. -/
theorem tokensAt_spaced (h : ∀ a ∈ list, a.Readable) (fileName : String) (p : Place) :
    (Piece.tokensAt fileName p (Piece.divide (spaced list))).map (·.symbol) = list := by
  induction list generalizing p with
  | nil => rfl
  | cons a list ih =>
    obtain ⟨c, cs, hlexeme, hread⟩ := (h a List.mem_cons_self).reads
    have hlist := tokensAt_gapped (ih fun b hb => h b (List.mem_cons_of_mem _ hb))
    rw [spaced_cons, hlexeme, List.cons_append,
      Piece.tokensAt_token fileName p (hread _ (gap_gapped list)), hlist, String.ofList_toList]

/-- A byte order mark in a text is a fault. -/
theorem isFault_orderMark (cs : List Char) : (Piece.first byteOrderMark cs).isFault = true := by
  have hnone : TokenKind.mark? (byteOrderMark :: cs) = none := rfl
  have hblank : Unicode.isBlank byteOrderMark = false := by decide
  have hword : isWordStart byteOrderMark = false := by
    -- In the table a number is found at once, a character is turned into it at every step.
    have htable : Unicode.switched Unicode.alphabetic 0xFEFF = false := by decide +kernel
    have hletter : Unicode.isAlphabetic byteOrderMark =
        Unicode.switched Unicode.alphabetic 0xFEFF := by decide +kernel
    rw [isWordStart, hletter, htable]
    decide
  have hmark : Piece.first byteOrderMark cs = Piece.mark byteOrderMark cs := by
    unfold Piece.first
    rw [hblank, hword]
    rfl
  rw [hmark, Piece.mark, hnone]
  rfl

/-- A readable symbol begins neither with a byte order mark nor with a comment. -/
theorem Readable.head (h : a.Readable) (rest : List Char) (hrest : Gap rest) {c : Char}
    (hc : (a.lexeme ++ rest).head? = some c) : c ≠ byteOrderMark ∧ c ≠ '#' := by
  obtain ⟨d, cs, hlexeme, hread⟩ := h.reads
  have hread := hread rest hrest
  rw [hlexeme, List.cons_append] at hc
  cases hc
  constructor
  · rintro rfl
    have hfault := isFault_orderMark (cs ++ rest)
    rw [hread] at hfault
    cases hfault
  · rintro rfl
    have htrivia := Piece.isTrivia_of_lineComment rfl (congrArg Piece.reading hread)
    rw [h.significant] at htrivia
    cases htrivia

theorem head_spaced (h : ∀ a ∈ list, a.Readable) :
    ∀ c ∈ (spaced list).head?, c ≠ byteOrderMark ∧ c ≠ '#' := by
  cases list with
  | nil => exact nofun
  | cons a list =>
    rw [spaced_cons]
    exact fun c => (h a List.mem_cons_self).head (gapped list) (gap_gapped list)

end Symbol

namespace TokenStream

/-- A text that begins with neither mark of an opening has none. -/
theorem body_of_head {text : List Char} (h : ∀ c ∈ text.head?, c ≠ byteOrderMark ∧ c ≠ '#')
    (fileName : String) : ∃ p,
      (lex (String.ofList text) fileName).body = Piece.tokensAt fileName p (Piece.divide text) := by
  have hopening : opening text = ([], text) := by
    cases text with
    | nil => rfl
    | cons c cs =>
      obtain ⟨hmark, hcomment⟩ := h c rfl
      have hline : ['#', '!', '/'].isPrefixOf (c :: cs) = false := by
        simp [List.isPrefixOf, Ne.symm hcomment]
      simp [opening, hmark, hline]
  rw [lex_body, String.toList_ofList, hopening]
  exact ⟨_, rfl⟩

variable {list : List Symbol}

theorem body_spaced (h : ∀ a ∈ list, a.Readable) (fileName : String) :
    (lex (String.ofList (Symbol.spaced list)) fileName).body.map (·.symbol) = list := by
  obtain ⟨p, hbody⟩ := body_of_head (Symbol.head_spaced h) fileName
  rw [hbody]
  exact Symbol.tokensAt_spaced h fileName p

/-- The text of readable symbols is read as these symbols. -/
theorem symbols_spaced (h : ∀ a ∈ list, a.Readable) (fileName : String) :
    (lex (String.ofList (Symbol.spaced list)) fileName).symbols.toList = list := by
  rw [symbols_toList_eq, body_spaced h, List.filter_eq_self]
  exact fun a ha => by simp [(h a ha).significant]

theorem illegal?_spaced (h : ∀ a ∈ list, a.Readable) (fileName : String) :
    (lex (String.ofList (Symbol.spaced list)) fileName).illegal? = none := by
  apply illegal?_eq_none
  rw [symbols_spaced h]
  exact fun a ha => (h a ha).legal

end TokenStream

end FrontEnd
