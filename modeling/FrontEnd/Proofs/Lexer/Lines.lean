import Mathlib.Data.List.DropRight
import FrontEnd.Proofs.Lexer.Spacing

/-!
Tokens written one to a line. Comments run to the end of their lines, so that lines hold all
tokens of a source, its comments among them, and are read as these tokens and nothing else.
-/

namespace FrontEnd

namespace Symbol

/-- What stands on the line of the symbol. -/
def line (a : Symbol) : List Char :=
  match a.kind with
  | .comment => ['/', '/', ' '] ++ a.text.toList
  | .docComment => ['/', '/', '/'] ++ a.text.toList
  | .endOfFile => []
  | _ => a.lexeme

/-- The symbols, each on a line of its own. -/
def lines (symbols : List Symbol) : List Char := ['\n'].intercalate (symbols.map line)

end Symbol

namespace Piece

/-! ## Comments -/

theorem trim_eq (cs : List Char) :
    trim cs = (cs.dropWhile Unicode.isBlank).rdropWhile Unicode.isBlank := rfl

theorem mem_of_mem_trim {c : Char} {cs : List Char} (h : c ∈ trim cs) : c ∈ cs :=
  (List.dropWhile_suffix _).subset ((List.rdropWhile_prefix _ _).subset h)

/-- A trimmed text begins as what is behind the blanks of the text does, so with none. -/
theorem trim_trim (cs : List Char) : trim (trim cs) = trim cs := by
  have hfront : (trim cs).dropWhile Unicode.isBlank = trim cs := by
    obtain ⟨back, hback⟩ : trim cs <+: cs.dropWhile Unicode.isBlank := List.rdropWhile_prefix _ _
    cases htrim : trim cs with
    | nil => rfl
    | cons c text =>
      have hhead := List.head?_dropWhile_not Unicode.isBlank cs
      rw [← hback, htrim] at hhead
      exact List.dropWhile_cons_of_neg (by simpa using hhead)
  rw [trim_eq (trim cs), hfront, trim_eq, List.rdropWhile_idempotent]

/-- What a comment may tell: something within a line, without blanks around it. -/
structure Remark (text : List Char) : Prop where
  ne_nil : text ≠ []
  trimmed : trim text = text
  inLine : ∀ c ∈ text, isLineEnd c = false

/-- A text that is at its end or goes on with a new line. -/
def EndsLine (rest : List Char) : Prop := ∀ c ∈ rest.head?, c = '\n'

theorem EndsLine.gap {rest : List Char} (h : EndsLine rest) : Gap rest := by
  intro c hc
  rw [h c hc]
  decide

variable {kind kind' : TokenKind} {opening cs text rest : List Char} {c : Char}

theorem remark_of_lineComment
    (h : (lineComment kind opening cs).reading = .token kind' text) : Remark text := by
  unfold lineComment at h
  dsimp only at h
  split at h
  · cases h
  · rename_i hne
    cases h
    refine ⟨by simpa using hne, trim_trim _, fun c hc => ?_⟩
    exact (restOfLine_takeWhile cs).1 c (mem_of_mem_trim hc)

theorem isTrivia_of_mark (h : (mark c cs).reading = .token kind text) : kind.isTrivia = false := by
  unfold mark at h
  split at h
  · rename_i k hmark
    cases h
    have hfixed := TokenKind.isFixed_of_mark (List.mem_of_find?_eq_some hmark)
    cases kind <;> first | rfl | cases hfixed
  · cases h

theorem remark_of_slash (h : (slash cs).reading = .token kind text) (hk : kind.isTrivia = true) :
    Remark text := by
  unfold slash at h
  split at h
  · exact remark_of_lineComment h
  · exact remark_of_lineComment h
  · unfold blockComment at h
    split at h <;> cases h
  · rw [isTrivia_of_mark h] at hk
    cases hk

theorem first_slash (cs : List Char) : first '/' cs = slash cs := rfl

/-- Only behind a slash or a number sign there is a comment. -/
theorem remark_of_first (h : (first c cs).reading = .token kind text)
    (hk : kind.isTrivia = true) : Remark text := by
  have hsound := first_sound c cs []
  rw [Sound, h] at hsound
  have happend := first_append c cs
  generalize (first c cs).lexeme = lexeme at hsound happend
  generalize (first c cs).rest = rest at hsound happend
  cases hsound with
  | fixed hfixed => cases kind <;> cases hfixed <;> cases hk
  | plain hplain => cases kind <;> cases hplain <;> cases hk
  | comment ho hbody =>
    rcases ho with rfl | rfl
    · cases happend
      rw [first_slash] at h
      exact remark_of_slash h hk
    · cases happend
      exact remark_of_lineComment h
  | docComment hbody =>
    cases happend
    rw [first_slash] at h
    exact remark_of_slash h hk
  | _ => cases hk

/-- A remark is read again behind blanks of its line. -/
theorem lineComment_remark (kind : TokenKind) (opening lead : List Char)
    (hlead : ∀ c ∈ lead, c = ' ') (h : Remark text) (hrest : EndsLine rest) :
    lineComment kind opening (lead ++ text ++ rest) =
      ⟨.token kind text, opening ++ (lead ++ text), rest⟩ := by
  have hinside : ∀ c ∈ lead ++ text, (!isLineEnd c) = true := by
    intro c hc
    rcases List.mem_append.mp hc with hc | hc
    · rw [hlead c hc]
      rfl
    · rw [h.inLine c hc]
      rfl
  have htrim : trim (lead ++ text) = text := by
    rw [trim_eq, List.dropWhile_append_of_pos fun c hc => by rw [hlead c hc]; rfl]
    exact h.trimmed
  have hstop : rest.takeWhile (!isLineEnd ·) = [] ∧ rest.dropWhile (!isLineEnd ·) = rest := by
    cases rest with
    | nil => exact ⟨rfl, rfl⟩
    | cons c rest => cases hrest c rfl; exact ⟨rfl, rfl⟩
  unfold lineComment
  dsimp only
  rw [List.takeWhile_append_of_pos hinside, List.dropWhile_append_of_pos hinside, hstop.1, hstop.2,
    List.append_nil, htrim, if_neg (by simpa using h.ne_nil)]

end Piece

/-! ## Lines -/

/-- Before the end of its line the symbol is read as a token of it. Its line is not one that
names an interpreter. -/
structure Symbol.Legible (a : Symbol) : Prop where
  head : ∀ c ∈ a.line.head?, c ≠ '#'
  reads : ∃ c cs, a.line = c :: cs ∧ ∀ rest, Piece.EndsLine rest →
    Piece.first c (cs ++ rest) = ⟨.token a.kind a.text.toList, a.line, rest⟩

namespace Symbol

variable {a : Symbol} {list : List Symbol}

theorem line_eq_lexeme (h : a.kind.isTrivia = false) (hend : a.kind ≠ .endOfFile) :
    a.line = a.lexeme := by
  unfold line
  split
  · rename_i hk
    rw [hk] at h
    cases h
  · rename_i hk
    rw [hk] at h
    cases h
  · rename_i hk
    exact absurd hk hend
  · rfl

theorem Readable.legible (h : a.Readable) (hend : a.kind ≠ .endOfFile) : a.Legible := by
  have hline := line_eq_lexeme h.significant hend
  obtain ⟨c, cs, hlexeme, hread⟩ := h.reads
  refine ⟨fun d hd => ?_, c, cs, hline.trans hlexeme, fun rest hrest => ?_⟩
  · rw [hline, ← List.append_nil a.lexeme] at hd
    exact (h.head [] .nil hd).2
  · rw [hline]
    exact hread rest hrest.gap

theorem legible_of_remark {kind : TokenKind} {text : String} (hk : kind.isTrivia = true)
    (h : Piece.Remark text.toList) : Legible ⟨kind, text⟩ := by
  rcases (by simpa [TokenKind.isTrivia] using hk : kind = .comment ∨ kind = .docComment) with
    rfl | rfl
  · refine ⟨by rintro c ⟨⟩; decide, '/', '/' :: ' ' :: text.toList, rfl, fun rest hrest => ?_⟩
    exact Piece.lineComment_remark .comment ['/', '/'] [' '] (by simp) h hrest
  · refine ⟨by rintro c ⟨⟩; decide, '/', '/' :: '/' :: text.toList, rfl, fun rest hrest => ?_⟩
    exact Piece.lineComment_remark .docComment ['/', '/', '/'] [] (by simp) h hrest

theorem lines_cons (a : Symbol) (h : list ≠ []) :
    lines (a :: list) = a.line ++ '\n' :: lines list := by
  cases list with
  | nil => exact absurd rfl h
  | cons b list => simp [lines, List.intercalate]

/-- The symbols are read from their lines, behind which the source ends. -/
theorem tokensAt_lines (h : ∀ a ∈ list, a.Legible) (fileName : String) (p : Place) :
    (Piece.tokensAt fileName p (Piece.divide (lines (list ++ [.last])))).map (·.symbol) = list := by
  induction list generalizing p with
  | nil => rfl
  | cons a list ih =>
    obtain ⟨c, cs, hline, hread⟩ := (h a List.mem_cons_self).reads
    have hgap : Piece.EndsLine ('\n' :: lines (list ++ [.last])) := by rintro c ⟨⟩; rfl
    rw [List.cons_append, lines_cons a (by simp), hline, List.cons_append,
      Piece.tokensAt_token fileName p (hread _ hgap), Piece.tokensAt_trivia fileName _ rfl,
      ih fun b hb => h b (List.mem_cons_of_mem _ hb), String.ofList_toList]

/-- A legible symbol begins with no byte order mark, which is read as no token. -/
theorem head_lines (h : ∀ a ∈ list, a.Legible) :
    ∀ c ∈ (lines (list ++ [.last])).head?, c ≠ byteOrderMark ∧ c ≠ '#' := by
  cases list with
  | nil => exact nofun
  | cons a list =>
    have ha := h a List.mem_cons_self
    obtain ⟨c, cs, hline, hread⟩ := ha.reads
    have hhead := ha.head
    rw [List.cons_append, lines_cons a (by simp), hline]
    rw [hline] at hhead
    rintro d ⟨⟩
    refine ⟨?_, hhead c rfl⟩
    rintro rfl
    have hfault := isFault_orderMark (cs ++ [])
    rw [hread [] nofun] at hfault
    cases hfault

end Symbol

/-- A token of a source is legible, unless it tells of a fault. -/
theorem lex_legible {source fileName : String} {t : Token} (h : t ∈ (lex source fileName).body)
    (hlegal : t.kind ≠ .illegal) : t.symbol.Legible := by
  obtain ⟨c, cs, hread⟩ := lex_reading h hlegal
  have hsound := Piece.first_sound c cs []
  rw [Piece.Sound, hread] at hsound
  by_cases hk : t.kind.isTrivia = true
  · exact Symbol.legible_of_remark hk (Piece.remark_of_first hread hk)
  · exact (lex_readable h hlegal (Bool.not_eq_true _ ▸ hk)).legible hsound.kind_ne.2

namespace TokenStream

theorem symbols_of_lines {list : List Symbol} (h : ∀ a ∈ list, a.Legible) (fileName : String) :
    (lex (String.ofList (Symbol.lines (list ++ [.last]))) fileName).tokens.map (·.symbol) =
      list ++ [.last] := by
  obtain ⟨p, hbody⟩ := body_of_head (Symbol.head_lines h) fileName
  rw [tokens, List.map_append, hbody, Symbol.tokensAt_lines h fileName p]
  rfl

end TokenStream

/-- The tokens of a source without faults, written one to a line, are read as the same tokens. -/
theorem lex_lines (source fileName fileName' : String)
    (h : ∀ t ∈ (lex source fileName).tokens, t.kind ≠ .illegal) :
    let written := String.ofList (Symbol.lines ((lex source fileName).tokens.map (·.symbol)))
    (lex written fileName').tokens.map (·.symbol) = (lex source fileName).tokens.map (·.symbol) ∧
      ∀ t ∈ (lex written fileName').tokens, t.kind ≠ .illegal := by
  have htokens : (lex source fileName).tokens.map (·.symbol) =
      (lex source fileName).body.map (·.symbol) ++ [.last] := by
    rw [TokenStream.tokens, List.map_append]
    rfl
  have hlegible : ∀ a ∈ (lex source fileName).body.map (·.symbol), a.Legible := by
    intro a ha
    obtain ⟨t, ht, rfl⟩ := List.mem_map.mp ha
    exact lex_legible ht (h t (List.mem_append_left _ ht))
  have hread := TokenStream.symbols_of_lines hlegible fileName'
  rw [← htokens] at hread
  refine ⟨hread, fun t ht hillegal => ?_⟩
  have hmem : t.symbol ∈ (lex source fileName).tokens.map (·.symbol) :=
    hread ▸ List.mem_map_of_mem ht
  obtain ⟨u, hu, hsymbol⟩ := List.mem_map.mp hmem
  exact h u hu ((congrArg Symbol.kind hsymbol).trans hillegal)

theorem lex_lines_of_comments :
    let source := "////! top\n@len = 1_0.5e+3j;  #  each\n\"a\\\"\"\"\"\"q\"r\"\"\"'\\''0xf.x"
    let written :=
      "////! top\n@len\n=\n1_0.5e+3j\n;\n// each\n\"a\\\"\"\n\"\"\"q\"r\"\"\"\n'\\''\n0xf\n.\nx\n"
    (∀ t ∈ (lex source "a.hz").tokens, t.kind ≠ .illegal) ∧
      String.ofList (Symbol.lines ((lex source "a.hz").tokens.map (·.symbol))) = written ∧
      (lex written "b.hz").tokens.map (·.symbol) = (lex source "a.hz").tokens.map (·.symbol) := by
  intro source written
  have hlegal : ∀ t ∈ (lex source "a.hz").tokens, t.kind ≠ .illegal := by decide +kernel
  have hwritten : String.ofList (Symbol.lines ((lex source "a.hz").tokens.map (·.symbol))) =
      written := by decide +kernel
  have hread := (lex_lines source "a.hz" "b.hz" hlegal).1
  rw [hwritten] at hread
  exact ⟨hlegal, hwritten, hread⟩

end FrontEnd
