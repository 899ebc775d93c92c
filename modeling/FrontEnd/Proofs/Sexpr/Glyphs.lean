import Mathlib.Tactic.SplitIfs
import FrontEnd.Proofs.Lexer.Spacing

/-!
The parts that a written tree is made of: parentheses, and atoms between them. Brackets and
colons are atoms of their own, and so are points (dots) in a row. A name, a number or an
operator ends where none of its characters follows, a quoted text at its closing mark.
-/

namespace FrontEnd

inductive Glyph where
  | opening | closing
  | atom (text : String)
  deriving DecidableEq, Repr

namespace Glyph

/-- Characters that no word has, but for single dots. -/
def breaks : List Char := [' ', '\n', '(', ')', '[', ']', ':', '"', '`', '\'', '.']

def isPlain (c : Char) : Bool := !breaks.contains c

/-- The front of a text up to a break or to two dots, and what stands behind. -/
def word : List Char → List Char × List Char
  | [] => ([], [])
  | '.' :: '.' :: cs => ([], '.' :: '.' :: cs)
  | c :: cs => if isPlain c || c = '.' then (c :: (word cs).1, (word cs).2) else ([], c :: cs)

/-- What the first character of a text opens, and what stands behind it. -/
def step (c : Char) (cs : List Char) : List Glyph × List Char :=
  if c = ' ' || c = '\n' then ([], cs)
  else if c = '(' then ([opening], cs)
  else if c = ')' then ([closing], cs)
  else if c = '[' || c = ']' || c = ':' then ([atom (String.singleton c)], cs)
  else if c = '"' || c = '`' || c = '\'' then
    ([atom (String.ofList (Piece.first c cs).lexeme)], (Piece.first c cs).rest)
  else if ['.', '.'].isPrefixOf (c :: cs) then ([atom "..."], cs.drop 2)
  else ([atom (String.ofList (c :: (word cs).1))], (word cs).2)

/-- At most `n` steps. -/
def readWithin : Nat → List Char → List Glyph
  | 0, _ => []
  | _ + 1, [] => []
  | n + 1, c :: cs => (step c cs).1 ++ readWithin n (step c cs).2

/-- The glyphs of a text. -/
def read (cs : List Char) : List Glyph := readWithin cs.length cs

section Steps

variable {c : Char} {cs rest : List Char}

theorem word_length_le (cs : List Char) : (word cs).2.length ≤ cs.length := by
  fun_induction word cs with
  | case3 c cs _ _ ih => exact Nat.le_succ_of_le ih
  | _ => simp

theorem step_length_le (c : Char) (cs : List Char) : (step c cs).2.length ≤ cs.length := by
  have hword := word_length_le cs
  have hfirst := Piece.first_rest_length_le c cs
  unfold step
  split_ifs <;> simp <;> omega

theorem readWithin_eq {m n : Nat} (hm : cs.length ≤ m) (hn : cs.length ≤ n) :
    readWithin m cs = readWithin n cs := by
  induction m generalizing n cs with
  | zero =>
    obtain rfl := List.eq_nil_of_length_eq_zero (Nat.le_zero.mp hm)
    cases n <;> rfl
  | succ m ih =>
    cases cs with
    | nil => cases n <;> rfl
    | cons c cs =>
      cases n with
      | zero => simp at hn
      | succ n =>
        have hl := step_length_le c cs
        simp only [List.length_cons] at hm hn
        simp only [readWithin, ih (by omega : (step c cs).2.length ≤ m)
          (by omega : (step c cs).2.length ≤ n)]

theorem read_cons (c : Char) (cs : List Char) :
    read (c :: cs) = (step c cs).1 ++ read (step c cs).2 := by
  simp only [read, List.length_cons, readWithin,
    readWithin_eq (step_length_le c cs) (Nat.le_refl _)]

theorem read_blank (hc : c = ' ' ∨ c = '\n') : read (c :: cs) = read cs := by
  rcases hc with rfl | rfl <;> exact read_cons _ cs

theorem read_opening : read ('(' :: cs) = opening :: read cs := read_cons '(' cs

theorem read_closing : read (')' :: cs) = closing :: read cs := read_cons ')' cs

theorem read_mark (hc : c = '[' ∨ c = ']' ∨ c = ':') :
    read (c :: cs) = atom (String.singleton c) :: read cs := by
  rcases hc with rfl | rfl | rfl <;> exact read_cons _ cs

theorem read_dots : read ('.' :: '.' :: '.' :: cs) = atom "..." :: read cs := read_cons '.' _

end Steps

/-! ## Atoms -/

/-- What stands behind an atom does not go on with it. -/
def isCalm : List Char → Bool
  | [] => true
  | '.' :: '.' :: _ => true
  | c :: _ => c = ' ' || c = '\n' || c = ')' || c = ']'

/-- A text that is read as a single atom: plain characters, with a dot between two of them
at most. -/
inductive Wordy : List Char → Prop where
  | plain {c : Char} {cs : List Char} (h : ∀ d ∈ c :: cs, isPlain d = true) : Wordy (c :: cs)
  | dotted {c d : Char} {cs ds : List Char} (h : ∀ e ∈ c :: cs, isPlain e = true)
    (h' : ∀ e ∈ d :: ds, isPlain e = true) : Wordy (c :: cs ++ '.' :: d :: ds)

section Words

variable {c d : Char} {cs ds rest : List Char}

theorem isPlain_of {p : Char → Bool} (hp : breaks.all (!p ·) = true) (h : p c = true) :
    isPlain c = true := by
  rw [isPlain, Bool.not_eq_true', ← Bool.not_eq_true, List.contains_iff_mem]
  intro hc
  have hnot := List.all_eq_true.mp hp c hc
  rw [h] at hnot
  cases hnot

theorem ne_of_isPlain (h : isPlain c = true) : c ∉ breaks := by
  rw [isPlain, Bool.not_eq_true'] at h
  rw [← List.contains_iff_mem, h]
  decide

theorem word_plain (h : isPlain c = true) (cs : List Char) :
    word (c :: cs) = (c :: (word cs).1, (word cs).2) := by
  have hdot : c ≠ '.' := fun hc => ne_of_isPlain h (hc ▸ by decide)
  rw [word, if_pos (by simp [h])]
  exact fun _ hc => absurd hc hdot

theorem word_append (h : ∀ d ∈ cs, isPlain d = true) (rest : List Char) :
    word (cs ++ rest) = (cs ++ (word rest).1, (word rest).2) := by
  induction cs with
  | nil => rfl
  | cons c cs ih =>
    rw [List.forall_mem_cons] at h
    rw [List.cons_append, word_plain h.1, ih h.2]
    rfl

theorem word_dot (h : isPlain d = true) (ds : List Char) :
    word ('.' :: d :: ds) = ('.' :: d :: (word ds).1, (word ds).2) := by
  have hdot : d ≠ '.' := fun hd => ne_of_isPlain h (hd ▸ by decide)
  rw [word, if_pos (by decide), word_plain h]
  exact fun _ _ hd => absurd (List.cons.inj hd).1 hdot

theorem word_calm (h : isCalm rest = true) : word rest = ([], rest) := by
  fun_cases isCalm rest with
  | case1 => rfl
  | case2 => rfl
  | case3 c cs hdots =>
    have hc : c = ' ' ∨ c = '\n' ∨ c = ')' ∨ c = ']' := by
      rw [isCalm] at h
      · simpa [or_assoc] using h
      · exact hdots
    rcases hc with rfl | rfl | rfl | rfl <;> rfl

theorem word_wordy {w : List Char} (hw : Wordy w) (hr : isCalm rest = true) :
    word (w ++ rest) = (w, rest) := by
  cases hw with
  | plain h => rw [word_append h, word_calm hr, List.append_nil]
  | @dotted c d cs ds h h' =>
    rw [List.forall_mem_cons] at h'
    have hback : word ('.' :: d :: (ds ++ rest)) = ('.' :: d :: ds, rest) := by
      rw [word_dot h'.1, word_append h'.2, word_calm hr, List.append_nil]
    rw [List.append_assoc, word_append h]
    simp only [List.cons_append, hback]

theorem step_plain (h : isPlain c = true) (cs : List Char) :
    step c cs = ([atom (String.ofList (c :: (word cs).1))], (word cs).2) := by
  have hbreaks := ne_of_isPlain h
  simp only [breaks, List.mem_cons, List.not_mem_nil, not_or, or_false] at hbreaks
  obtain ⟨h1, h2, h3, h4, h5, h6, h7, h8, h9, h10, h11⟩ := hbreaks
  simp [step, h1, h2, h3, h4, h5, h6, h7, h8, h9, h10, Ne.symm h11]

/-- A word is an atom before what does not go on with it. -/
theorem read_wordy {w : List Char} (hw : Wordy w) (hr : isCalm rest = true) :
    read (w ++ rest) = atom (String.ofList w) :: read rest := by
  obtain ⟨c, cs, rfl, hc⟩ : ∃ c cs, w = c :: cs ∧ isPlain c = true := by
    cases hw with
    | plain h => exact ⟨_, _, rfl, h _ List.mem_cons_self⟩
    | dotted h h' => exact ⟨_, _, rfl, h _ List.mem_cons_self⟩
  have hword := word_wordy hw hr
  rw [List.cons_append, word_plain hc] at hword
  rw [List.cons_append, read_cons, step_plain hc]
  simp only [Prod.mk.injEq, List.cons.injEq, true_and] at hword
  rw [hword.1, hword.2]
  rfl

/-- A dot before a blank is one as well. -/
theorem read_dot (rest : List Char) : read ('.' :: ' ' :: rest) = atom "." :: read rest := by
  rw [read_cons]
  exact congrArg (atom "." :: ·) (read_blank (.inl rfl))

end Words

/-! ## Lexemes of names and numbers -/

section Numbers

open Numeral

variable {c : Char} {cs text rest : List Char}

theorem isPlain_digit (h : c.isDigit = true) : isPlain c = true := isPlain_of (by decide) h

theorem isPlain_run (cs : List Char) : ∀ d ∈ (run cs).1, isPlain d = true := by
  fun_induction run cs with
  | case2 c cs hc ih => exact List.forall_mem_cons.mpr ⟨isPlain_digit hc, ih⟩
  | case4 d ds hd hc ih =>
    exact List.forall_mem_cons.mpr ⟨by decide, List.forall_mem_cons.mpr ⟨isPlain_digit hd, ih⟩⟩
  | _ => exact List.forall_mem_nil _

/-- What stands behind the whole part of a number. -/
theorem fraction_cases (cs : List Char) :
    (fraction cs).1 = [] ∨
      ∃ d ds, (fraction cs).1 = '.' :: d :: ds ∧ ∀ e ∈ d :: ds, isPlain e = true := by
  fun_cases fraction cs with
  | case1 cs hs =>
    obtain ⟨d, ds, hd, rfl⟩ := startsRun_cases hs
    have hplain := isPlain_run (d :: ds)
    rw [run_digit hd] at hplain ⊢
    exact .inr ⟨_, _, rfl, hplain⟩
  | _ => exact .inl rfl

theorem isPlain_exponent (h : exponent cs = .present text rest) :
    ∀ d ∈ text, isPlain d = true := by
  fun_cases exponent cs with
  | case3 e he s ds hs hd =>
    simp only [exponent, if_pos he, if_pos hs, if_pos hd, Exponent.present.injEq] at h
    obtain ⟨rfl, -⟩ := h
    have hletter : isPlain e = true := by
      apply isPlain_of (p := fun e => e = 'e' || e = 'E') (by decide) he
    have hsign : isPlain s = true := by
      apply isPlain_of (p := fun s => s = '+' || s = '-') (by decide) hs
    exact List.forall_mem_cons.mpr ⟨hletter, List.forall_mem_cons.mpr ⟨hsign, isPlain_run ds⟩⟩
  | _ => simp_all [exponent]

theorem Wordy.cons {w : List Char} (hc : isPlain c = true) (hw : Wordy w) : Wordy (c :: w) := by
  cases hw with
  | plain h => exact .plain (List.forall_mem_cons.mpr ⟨hc, h⟩)
  | dotted hfront hback => exact .dotted (List.forall_mem_cons.mpr ⟨hc, hfront⟩) hback

/-- More plain characters make a word longer. -/
theorem Wordy.append {w more : List Char} (hw : Wordy w) (h : ∀ d ∈ more, isPlain d = true) :
    Wordy (w ++ more) := by
  cases hw with
  | plain h' => exact .plain (List.forall_mem_append.mpr ⟨h', h⟩)
  | dotted hfront hback =>
    rw [List.append_assoc]
    exact .dotted hfront (List.forall_mem_append.mpr ⟨hback, h⟩)

theorem wordy_digits (hc : c.isDigit = true) (cs : List Char) : Wordy (c :: digits cs) := by
  have hwhole : ∀ d ∈ c :: (run cs).1, isPlain d = true :=
    List.forall_mem_cons.mpr ⟨isPlain_digit hc, isPlain_run cs⟩
  rw [digits]
  rcases fraction_cases (run cs).2 with hnone | ⟨d, ds, hpart, hplain⟩
  · rw [hnone, List.append_nil]
    exact .plain hwhole
  · rw [hpart]
    exact .dotted hwhole hplain

theorem wordy_marked {kind : TokenKind} {w : List Char} (hw : Wordy w) (cs : List Char) :
    Wordy (marked kind w cs).lexeme := by
  fun_cases marked kind w cs with
  | case2 j cs hj =>
    refine hw.append (List.forall_mem_singleton.mpr ?_)
    exact isPlain_of (p := fun j => j = 'j' || j = 'J') (by decide) hj
  | _ => exact hw

theorem wordy_decimal (hc : c.isDigit = true) (hf : (decimal c cs).isFault = false) :
    Wordy (decimal c cs).lexeme := by
  cases he : exponent (behindDigits cs) with
  | absent =>
    rw [decimal_of_absent c he]
    exact wordy_marked (wordy_digits hc cs) _
  | present more back =>
    rw [decimal_of_present c he]
    exact wordy_marked ((wordy_digits hc cs).append (isPlain_exponent he)) _
  | broken cause taken back =>
    unfold decimal at hf
    simp only [behindDigits] at he
    simp [he, Piece.isFault] at hf

theorem wordy_number {r : Radix} (hr : Radix.ofLetter? c = some r) (cs : List Char) :
    Wordy (r.number c cs).lexeme := by
  have hletter : isPlain c = true :=
    isPlain_of (p := fun c => (Radix.ofLetter? c).isSome) (by decide) (by rw [hr]; rfl)
  have hdigits : breaks.all (fun d => !(r.isDigit d || d = '_')) = true := by
    have hmem := List.mem_of_find?_eq_some hr
    simp only [List.mem_cons, List.not_mem_nil, or_false] at hmem
    rcases hmem with rfl | rfl | rfl <;> decide
  have hplain : ∀ d ∈ '0' :: c :: cs.takeWhile (fun d => r.isDigit d || d = '_'),
      isPlain d = true := by
    simp only [List.forall_mem_cons]
    exact ⟨by decide, hletter, fun d hd =>
      isPlain_of hdigits (List.all_eq_true.mp List.all_takeWhile d hd)⟩
  unfold Radix.number
  dsimp only
  split <;> exact .plain hplain

theorem wordy_scan (hc : c.isDigit = true) (hf : (scan c cs).isFault = false) :
    Wordy (scan c cs).lexeme := by
  revert hf
  fun_cases scan c cs with
  | case1 | case4 | case5 => exact wordy_decimal hc
  | case2 d ds hzero r hr => exact fun _ => wordy_number hr ds
  | case3 =>
    intro hf
    cases hf

end Numbers

/-! ## Lexemes of names and literals -/

section Lexemes

variable {c : Char} {cs rest text : List Char} {kind : TokenKind}

theorem isPlain_wordPart (h : isWordPart c = true) : isPlain c = true :=
  isPlain_of (by decide +kernel) h

theorem isPlain_wordParts (cs : List Char) : ∀ d ∈ cs.takeWhile isWordPart, isPlain d = true :=
  fun _ hd => isPlain_wordPart (List.all_eq_true.mp List.all_takeWhile _ hd)

theorem wordy_word (h : isWordStart c = true) (cs : List Char) :
    Wordy (Piece.word c cs).lexeme := by
  refine .plain (List.forall_mem_cons.mpr ⟨isPlain_wordPart ?_, isPlain_wordParts cs⟩)
  simp only [isWordStart, isWordPart, Unicode.isAlphanumeric, Bool.or_eq_true] at h ⊢
  exact h.imp_left .inl

theorem wordy_builtin (cs : List Char) : Wordy (Piece.builtin cs).lexeme :=
  .plain (List.forall_mem_cons.mpr ⟨by decide, isPlain_wordParts cs⟩)

/-- What `scan` reads behind `c`, unless that is a fault, it reads again before a calm text. -/
def Quoted (scan : List Char → Piece) (c : Char) : Prop :=
  ∀ cs, (scan cs).isFault = false → ∃ reading body back, body ++ back = cs ∧
    ∀ rest, rest = back ∨ isCalm rest = true → scan (body ++ rest) = ⟨reading, c :: body, rest⟩

theorem quoted_rawString : Quoted rawString '`' := by
  intro cs hf
  obtain ⟨text, back, rfl, hread⟩ := Closing.literal_append (by decide) hf
  exact ⟨_, text ++ ['`'], back, rfl, fun rest _ => hread rest⟩

theorem not_quotes_of_calm (hr : isCalm rest = true) : ¬['"', '"'] <+: '"' :: rest := by
  rintro ⟨more, hmore⟩
  obtain rfl : '"' :: more = rest := (List.cons.inj hmore).2
  cases hr

theorem quoted_quotedString : Quoted quotedString '"' := by
  intro cs hf
  by_cases hp : ['"', '"'].isPrefixOf cs = true
  · obtain ⟨ds, rfl⟩ := List.isPrefixOf_iff_prefix.mp hp
    obtain ⟨text, back, rfl, hread⟩ := Closing.literal_append (q := .ofTriple) (by decide) hf
    exact ⟨_, ['"', '"'] ++ text ++ ['"', '"', '"'], back, by simp; rfl, fun rest _ => hread rest⟩
  · rw [quotedString, if_neg hp] at hf
    obtain ⟨text, back, rfl, hread⟩ := Closing.literal_append (by decide) hf
    refine ⟨.token .string text, text ++ ['"'], back, rfl, fun rest hr => ?_⟩
    refine (if_neg fun hquotes => ?_).trans (hread rest)
    rcases hr with rfl | hr
    · exact hp hquotes
    rw [List.isPrefixOf_iff_prefix] at hp hquotes
    cases text with
    | nil => exact not_quotes_of_calm hr hquotes
    | cons d text =>
      have hfront : ['"', '"'] <+: d :: text ++ ['"'] :=
        List.prefix_of_prefix_length_le hquotes (List.prefix_append _ _) (by simp)
      exact hp (hfront.trans (List.prefix_append _ _))

theorem quoted_rune : Quoted rune '\'' := by
  intro cs hf
  by_cases hempty : cs.head? = some '\''
  · obtain ⟨cs, rfl⟩ := List.head?_eq_some_iff.mp hempty
    cases hf
  · rw [rune_of_head hempty] at hf
    obtain ⟨text, back, rfl, hread⟩ := Closing.literal_append (by decide) hf
    refine ⟨.token .rune text, text ++ ['\''], back, rfl, fun rest _ => ?_⟩
    rw [rune_of_head]
    · exact hread rest
    · cases text with
      | nil => exact absurd rfl hempty
      | cons d text => exact hempty

theorem read_quoted (hc : c = '"' ∨ c = '`' ∨ c = '\'') (hq : Quoted (Piece.first c) c)
    (hf : (Piece.first c cs).isFault = false) (hr : isCalm rest = true) :
    read ((Piece.first c cs).lexeme ++ rest) =
      atom (String.ofList (Piece.first c cs).lexeme) :: read rest := by
  obtain ⟨reading, body, back, rfl, hread⟩ := hq cs hf
  have hstep : step c (body ++ rest) = ([atom (String.ofList (c :: body))], rest) := by
    have hagain := hread rest (.inr hr)
    rcases hc with rfl | rfl | rfl <;> simp [step, hagain]
  rw [hread back (.inl rfl), List.cons_append, read_cons, hstep]
  rfl

theorem isName_of_mark (h : (Piece.mark c cs).reading = .token kind text) :
    kind.isName = false := by
  have hmarks : ∀ k ∈ TokenKind.marks, k.isName = false := by decide
  unfold Piece.mark at h
  split at h
  · rename_i hk
    cases h
    exact hmarks kind (List.mem_of_find?_eq_some hk)
  · cases h

theorem isName_of_lineComment {kind' : TokenKind} {opening : List Char}
    (hk : kind'.isTrivia = true)
    (h : (Piece.lineComment kind' opening cs).reading = .token kind text) :
    kind.isName = false := by
  have htrivia := Piece.isTrivia_of_lineComment hk h
  cases kind <;> first | rfl | cases htrivia

theorem isName_of_slash (h : (Piece.slash cs).reading = .token kind text) :
    kind.isName = false := by
  unfold Piece.slash at h
  split at h
  · exact isName_of_lineComment rfl h
  · exact isName_of_lineComment rfl h
  · unfold blockComment at h
    split at h <;> cases h
  · exact isName_of_mark h

/-- A name or a literal that does not begin with a quote is a word. -/
theorem wordy_first (h : (Piece.first c cs).reading = .token kind text) (hk : kind.isName = true)
    (hc : ¬(c = '"' ∨ c = '`' ∨ c = '\'')) : Wordy (Piece.first c cs).lexeme := by
  revert h
  fun_cases Piece.first c cs with
  | case1 => exact nofun
  | case2 hblank hstart => exact fun _ => wordy_word hstart cs
  | case3 hblank hstart hdigit => exact fun h => wordy_scan hdigit (by rw [Piece.isFault, h])
  | case4 | case5 | case6 => simp_all
  | case7 => exact fun h => absurd hk (by simp [isName_of_slash h])
  | case8 => exact fun h => absurd hk (by simp [isName_of_lineComment rfl h])
  | case9 => exact fun _ => wordy_builtin cs
  | case10 => exact fun h => absurd hk (by simp [isName_of_mark h])

/-- No name is quoted. -/
theorem wordy_of_identifier (h : (Piece.first c cs).reading = .token .identifier text) :
    Wordy (Piece.first c cs).lexeme := by
  refine wordy_first h rfl ?_
  rintro (rfl | rfl | rfl)
  · change (quotedString cs).reading = _ at h
    unfold quotedString Closing.literal at h
    split at h <;> split at h <;> cases h
  · change (rawString cs).reading = _ at h
    unfold rawString Closing.literal at h
    split at h <;> cases h
  · change (rune cs).reading = _ at h
    unfold rune Closing.literal at h
    split at h
    · cases h
    · split at h <;> cases h

/-- Before a calm text the lexeme of a name or a literal is an atom. -/
theorem read_first (h : (Piece.first c cs).reading = .token kind text) (hk : kind.isName = true)
    (hr : isCalm rest = true) : read ((Piece.first c cs).lexeme ++ rest) =
      atom (String.ofList (Piece.first c cs).lexeme) :: read rest := by
  by_cases hc : c = '"' ∨ c = '`' ∨ c = '\''
  · have hquoted : Quoted (Piece.first c) c := by
      rcases hc with rfl | rfl | rfl
      · exact quoted_quotedString
      · exact quoted_rawString
      · exact quoted_rune
    exact read_quoted hc hquoted (by rw [Piece.isFault, h]) hr
  · exact read_wordy (wordy_first h hk hc) hr

end Lexemes

end Glyph

end FrontEnd
