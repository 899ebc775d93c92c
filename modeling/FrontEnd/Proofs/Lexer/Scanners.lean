import FrontEnd.Proofs.Lexer.Marks
import FrontEnd.Proofs.Lexer.Pieces.Placed
import FrontEnd.Proofs.Source.Taking

/-!
The scanners of the lexer. Each of them gives what the piece in front of the lexer tells, and
leaves the buffer behind the lexeme of that piece: its loops take what the piece takes, its
slices are the texts of the piece, and its table of marks finds the longest one.
-/

namespace FrontEnd

/-! ## Loops -/

/-- Repeated more than `m` times from `s` on, the step gives `r`. -/
def Ends {σ α : Type} (step : σ → Option α × σ) (m : Nat) (s : σ) (r : Option α × σ) : Prop :=
  ∀ n, m < n → iterate step n s = r

namespace Ends

variable {σ α : Type} {step : σ → Option α × σ} {m k : Nat} {s s' : σ} {r : Option α × σ} {a : α}

theorem last (h : step s = (some a, s')) : Ends step m s (some a, s') := by
  intro n hn
  obtain ⟨n, rfl⟩ := Nat.exists_eq_succ_of_ne_zero (Nat.ne_zero_of_lt hn)
  rw [iterate, h]

theorem next (h : step s = (none, s')) (hk : k < m) (hr : Ends step k s' r) : Ends step m s r := by
  intro n hn
  obtain ⟨n, rfl⟩ := Nat.exists_eq_succ_of_ne_zero (Nat.ne_zero_of_lt hn)
  rw [iterate, h]
  exact hr n (by omega)

end Ends

namespace Lexer

/-- The lexer behind a lexeme that its buffer has taken. -/
def taking (l : Lexer) (lexeme rest : List Char) : Lexer :=
  { l with buffer := l.buffer.take lexeme rest }

/-- A token starts where the lexer stands. -/
def begin (l : Lexer) : Start := ⟨l.buffer.offset, l.buffer.place.location l.fileName⟩

end Lexer

/-- What a token of the kind adds to the opening braces less the closing ones. -/
def TokenKind.depth : TokenKind → Int
  | .leftBrace => 1
  | .rightBrace => -1
  | _ => 0

def Piece.depth (x : Piece) : Int :=
  match x.reading with
  | .token kind _ => kind.depth
  | _ => 0

namespace Lexer

/-- The lexer behind the piece, which it may warn of. -/
def past (l : Lexer) (x : Piece) : Lexer :=
  { l.taking x.lexeme x.rest with
    warnings := (x.warning?.map (·.at l.begin.location)).toList ++ l.warnings
    depth := l.depth + x.depth }

/-- What a scanner gives for the piece, and the lexer behind it. -/
def reads (l : Lexer) (x : Piece) : Except LexicalError (Option Token) × Lexer :=
  (match x.reading with
    | .token kind text => .ok (some (l.begin.token kind (String.ofList text)))
    | .fault cause => .error cause
    | _ => .ok none,
   l.past x)

variable {l : Lexer} {front lexeme rest cs : List Char}

@[simp] theorem buffer_taking : (l.taking lexeme rest).buffer = l.buffer.take lexeme rest := rfl

@[simp] theorem steps_taking : (l.taking lexeme rest).steps = l.steps := rfl

@[simp] theorem fileName_taking : (l.taking lexeme rest).fileName = l.fileName := rfl

theorem taking_taking (l : Lexer) (front lexeme rest : List Char) :
    (l.taking front (lexeme ++ rest)).taking lexeme rest = l.taking (front ++ lexeme) rest := by
  simp [taking, Buffer.take_take]

@[simp] theorem advance_taking (l : Lexer) (lexeme rest : List Char) (c : Char) :
    (l.taking lexeme (c :: rest)).advance = l.taking (lexeme ++ [c]) rest := by
  simp [advance, taking]

theorem advanceBy_taking (l : Lexer) (front lexeme rest : List Char) :
    (l.taking front (lexeme ++ rest)).advanceBy lexeme.length =
      l.taking (front ++ lexeme) rest := by
  simp [advanceBy, taking, Buffer.advanceBy_take]

theorem textFrom_taking_append (h : l.buffer.Counts) (front lexeme rest : List Char) :
    (l.taking (front ++ lexeme) rest).textFrom (l.buffer.offset + byteLength front) =
      String.ofList lexeme := by
  have hslice := Buffer.slice_take h front lexeme [] rest
  rw [List.append_nil] at hslice
  rw [textFrom, buffer_taking, Buffer.offset_take, byteLength_append, ← Nat.add_assoc, hslice]

theorem textFrom_taking (h : l.buffer.Counts) (lexeme rest : List Char) :
    (l.taking lexeme rest).textFrom l.buffer.offset = String.ofList lexeme :=
  textFrom_taking_append h [] lexeme rest

section Reads

variable {x : Piece} {kind : TokenKind} {text : List Char} {cause : LexicalError}

/-- A token of which the length is not checked, and which is no brace. -/
theorem reads_of_token (hx : x.reading = .token kind text) (hk : Piece.isMeasured kind = false)
    (hdepth : kind.depth = 0) :
    l.reads x =
      (.ok (some (l.begin.token kind (String.ofList text))), l.taking x.lexeme x.rest) := by
  simp [reads, past, taking, Piece.warning?, Piece.depth, hx, hk, hdepth]

theorem reads_of_measured (hx : x.reading = .token kind text) (hk : Piece.isMeasured kind = true) :
    l.reads x =
      (.ok (some (l.begin.token kind (String.ofList text))),
        (l.taking x.lexeme x.rest).checkLength (String.ofList text) l.begin) := by
  have hdepth : kind.depth = 0 := by
    unfold TokenKind.depth
    split <;> first | rfl | cases hk
  by_cases hlong : longestLexeme < text.length <;>
    simp [reads, checkLength, past, taking, warn, Piece.warning?, Piece.depth, hx, hk, hdepth,
      hlong]

theorem reads_of_fault (hx : x.reading = .fault cause) :
    l.reads x = (.error cause, l.taking x.lexeme x.rest) := by
  simp [reads, past, taking, Piece.warning?, Piece.depth, hx]

theorem reads_of_trivia (hx : x.reading = .trivia) :
    l.reads x = (.ok none, l.taking x.lexeme x.rest) := by
  simp [reads, past, taking, Piece.warning?, Piece.depth, hx]

end Reads

theorem ends_eat (p : Char → Bool) (b : Buffer) (front cs : List Char) :
    Ends (eat p) cs.length (b.take front cs)
      (some (), b.take (front ++ cs.takeWhile p) (cs.dropWhile p)) := by
  induction cs generalizing front with
  | nil =>
    rw [List.takeWhile_nil, List.append_nil]
    exact .last (by simp [eat])
  | cons c cs ih =>
    by_cases hc : p c = true
    · have hstep : eat p (b.take front (c :: cs)) = (none, b.take (front ++ [c]) cs) := by
        simp [eat, hc]
      refine .next hstep (Nat.lt_succ_self _) ?_
      simpa [hc] using ih (front ++ [c])
    · rw [List.takeWhile_cons_of_neg hc, List.dropWhile_cons_of_neg hc, List.append_nil]
      exact .last (by simp [eat, hc])

theorem eatWhile_taking (h : cs.length < l.steps) (front : List Char) (p : Char → Bool) :
    (l.taking front cs).eatWhile p = l.taking (front ++ cs.takeWhile p) (cs.dropWhile p) := by
  have hends := ends_eat p l.buffer front cs l.steps h
  simp [eatWhile, taking, hends]

/-! ## Words -/

/-- The name of a reserved word is not measured, and it would not be too long. -/
theorem keyword?_short {text : String} {k : TokenKind} (h : TokenKind.keyword? text = some k) :
    text.length ≤ longestLexeme ∧ Piece.isMeasured k = false ∧ k.depth = 0 := by
  have hall : ∀ k ∈ TokenKind.reserved, k.name.length ≤ longestLexeme ∧
      Piece.isMeasured k = false ∧ k.depth = 0 := by decide
  have hname : k.name = text := by simpa using List.find?_some h
  exact hname ▸ hall k (List.mem_of_find?_eq_some h)

theorem lexWord_taking (hl : l.buffer.Counts) (hs : cs.length < l.steps) (c : Char) :
    (.ok (some ((l.taking [c] cs).lexWord l.begin).1), ((l.taking [c] cs).lexWord l.begin).2) =
      l.reads (Piece.word c cs) := by
  have htext := textFrom_taking hl (c :: cs.takeWhile isWordPart) (cs.dropWhile isWordPart)
  have hread : (Piece.word c cs).reading =
      .token ((TokenKind.keyword? (String.ofList (c :: cs.takeWhile isWordPart))).getD .identifier)
        (c :: cs.takeWhile isWordPart) := rfl
  unfold lexWord
  rw [eatWhile_taking hs, List.singleton_append]
  dsimp only
  rw [begin, htext]
  cases hk : TokenKind.keyword? (String.ofList (c :: cs.takeWhile isWordPart)) with
  | none =>
    rw [hk] at hread
    exact (reads_of_measured hread rfl).symm
  | some k =>
    -- The length of a reserved word is checked as well, but it is never too long.
    obtain ⟨hlength, hmeasured, hdepth⟩ := keyword?_short hk
    rw [hk] at hread
    rw [reads_of_token hread hmeasured hdepth, checkLength, if_neg (Nat.not_lt.mpr hlength)]
    rfl

theorem lexBuiltin_taking (hl : l.buffer.Counts) (hs : cs.length < l.steps) :
    found ((l.taking ['@'] cs).lexBuiltin l.begin) = l.reads (Piece.builtin cs) := by
  have htext := textFrom_taking_append hl ['@'] (cs.takeWhile isWordPart) (cs.dropWhile isWordPart)
  unfold lexBuiltin
  dsimp only
  rw [eatWhile_taking hs, buffer_taking, Buffer.offset_take, htext]
  by_cases hname : cs.takeWhile isWordPart = []
  · have hread : (Piece.builtin cs).reading = .fault .missingBuiltinName := by
      simp [Piece.builtin, hname]
    rw [reads_of_fault hread, hname]
    simp [found, Except.map, Piece.builtin, hname]
  · have hread : (Piece.builtin cs).reading = .token .builtinName (cs.takeWhile isWordPart) := by
      simp [Piece.builtin, hname]
    rw [reads_of_measured hread rfl, if_neg (by simpa using hname)]
    rfl

/-! ## Numbers -/

theorem numberToken_taking (hl : l.buffer.Counts) {x : Piece} {kind : TokenKind}
    (hx : x.reading = .token kind x.lexeme) (hk : Piece.isMeasured kind = true) :
    found ((l.taking x.lexeme x.rest).numberToken kind l.begin) = l.reads x := by
  rw [reads_of_measured hx hk, numberToken, begin, textFrom_taking hl]
  rfl

/-- Digits are counted, and underscores among them are not. -/
theorem ends_digitStep (r : Radix) (k : Nat) (b : Buffer) (front cs : List Char) :
    let inRun := fun c => r.isDigit c || c = '_'
    Ends (digitStep r) cs.length (k, b.take front cs)
      (some (), k + (cs.takeWhile inRun).countP r.isDigit,
        b.take (front ++ cs.takeWhile inRun) (cs.dropWhile inRun)) := by
  intro inRun
  induction cs generalizing k front with
  | nil => exact .last (by simp [digitStep])
  | cons c cs ih =>
    by_cases hdigit : r.isDigit c = true
    · have hstep : digitStep r (k, b.take front (c :: cs)) =
          (none, k + 1, b.take (front ++ [c]) cs) := by
        simp [digitStep, hdigit]
      refine .next hstep (Nat.lt_succ_self _) ?_
      simpa [inRun, hdigit, Nat.add_assoc, Nat.add_comm 1] using ih (k + 1) (front ++ [c])
    · by_cases hlow : c = '_'
      · subst hlow
        have hstep : digitStep r (k, b.take front ('_' :: cs)) =
            (none, k, b.take (front ++ ['_']) cs) := by
          simp [digitStep, hdigit]
        refine .next hstep (Nat.lt_succ_self _) ?_
        simpa [inRun, hdigit] using ih k (front ++ ['_'])
      · refine .last ?_
        simp [digitStep, inRun, hdigit, hlow]

theorem lexBased_taking (hl : l.buffer.Counts) (hs : cs.length < l.steps) (r : Radix)
    (hk : Piece.isMeasured r.kind = true) (letter : Char) :
    found ((l.taking ['0', letter] cs).lexBased r l.begin) = l.reads (r.number letter cs) := by
  have hends := ends_digitStep r 0 l.buffer ['0', letter] cs l.steps hs
  unfold lexBased
  rw [steps_taking, buffer_taking, hends]
  dsimp only
  by_cases hany : (cs.takeWhile fun c => r.isDigit c || c = '_').any r.isDigit = true
  · have hread : (r.number letter cs).reading = .token r.kind (r.number letter cs).lexeme := by
      simp only [Radix.number, if_pos hany]
    rw [← numberToken_taking hl hread hk, if_neg]
    · simp only [Radix.number, if_pos hany]
      rfl
    · simpa [List.countP_eq_zero] using hany
  · have hread : (r.number letter cs).reading = .fault (.missingDigits r.lead r.expected) := by
      simp only [Radix.number, if_neg hany]
    rw [reads_of_fault hread, if_pos]
    · simp only [Radix.number, if_neg hany]
      rfl
    · simpa [List.countP_eq_zero] using hany

namespace Decimal

open Numeral (startsRun Exponent fraction)

variable {kind : TokenKind} {exponent : Bool} {b : Buffer} {c : Char}
  {r : Option (Except LexicalError Unit) × Decimal}

@[simp] theorem advance_take (kind : TokenKind) (exponent : Bool) (b : Buffer)
    (front cs : List Char) (c : Char) :
    advance ⟨kind, exponent, b.take front (c :: cs)⟩ =
      ⟨kind, exponent, b.take (front ++ [c]) cs⟩ := by
  simp [advance]

theorem step_cons (kind : TokenKind) (exponent : Bool) (b : Buffer) (front cs : List Char)
    (c : Char) :
    let d : Decimal := ⟨kind, exponent, b.take front (c :: cs)⟩
    step d =
      if c.isDigit || c = '_' && startsRun cs then
        (none, ⟨kind, exponent, b.take (front ++ [c]) cs⟩)
      else if c = '.' && kind == .decimalInteger && startsRun cs then
        (none, ⟨.float, exponent, b.take (front ++ [c]) cs⟩)
      else if (c = 'e' || c = 'E') && !exponent then d.beginExponent
      else (some (.ok ()), d) := by
  have hnext : (cs[0]?).any Char.isDigit = startsRun cs := by rw [startsRun, List.head?_eq_getElem?]
  simp only [step, Buffer.peek_take, List.getElem?_cons_succ, List.getElem?_cons_zero, hnext,
    advance_take]
  by_cases hdigit : c.isDigit = true
  · simp [hdigit]
  · simp only [hdigit, Bool.false_or, Bool.false_eq_true, if_false]

/-- No run of digits goes on with the text. -/
def EndsRun (cs : List Char) : Prop :=
  ∀ c ds, cs = c :: ds → (c.isDigit || c = '_' && startsRun ds) = false

theorem endsRun_run (cs : List Char) : EndsRun (Numeral.run cs).2 := by
  fun_induction Numeral.run cs with
  | case1 =>
    intro c ds h
    cases h
  | case2 | case4 => assumption
  | case3 => rintro c ds ⟨⟩; rfl
  | case5 d ds hd => rintro c ds ⟨⟩; simpa [startsRun] using hd
  | case6 c cs hdigit hlow => rintro c ds ⟨⟩; simp [hdigit, hlow]

/-- The loop takes a run of digits, of whatever part of the number it is. -/
theorem ends_run
    (h : Ends step (Numeral.run cs).2.length
      ⟨kind, exponent, b.take (front ++ (Numeral.run cs).1) (Numeral.run cs).2⟩ r) :
    Ends step cs.length ⟨kind, exponent, b.take front cs⟩ r := by
  fun_induction Numeral.run cs generalizing front with
  | case1 | case3 | case5 | case6 => rwa [List.append_nil] at h
  | case2 c cs hc ih =>
    refine .next (by rw [step_cons, if_pos (by simp [hc])]) (Nat.lt_succ_self _) (ih ?_)
    rwa [List.append_assoc]
  | case4 d ds hd _ ih =>
    refine .next (by rw [step_cons, if_pos (by simp [startsRun, hd])]) (Nat.lt_succ_self _) ?_
    refine .next (by rw [step_cons, if_pos (by simp [hd])]) (Nat.lt_succ_self _) (ih ?_)
    simpa using h

/-- Where the loop ends behind the digits of a number and of its fraction. -/
def ending (b : Buffer) (kind : TokenKind) (text rest : List Char) :
    Exponent → Option (Except LexicalError Unit) × Decimal
  | .absent => (some (.ok ()), ⟨kind, false, b.take text rest⟩)
  | .present more rest => (some (.ok ()), ⟨.float, true, b.take (text ++ more) rest⟩)
  | .broken cause taken rest => (some (.error cause), ⟨.float, true, b.take (text ++ taken) rest⟩)

/-- Behind an exponent nothing but digits goes on. -/
theorem ends_of_exponent (h : EndsRun cs) :
    Ends step cs.length ⟨.float, true, b.take front cs⟩
      (some (.ok ()), ⟨.float, true, b.take front cs⟩) := by
  cases cs with
  | nil => exact .last rfl
  | cons c cs =>
    refine .last ?_
    rw [step_cons, h c cs rfl]
    simp

theorem step_of_letter (h : EndsRun (c :: cs)) (hc : (c = 'e' || c = 'E') = true) :
    step ⟨kind, false, b.take front (c :: cs)⟩ =
      beginExponent ⟨kind, false, b.take front (c :: cs)⟩ := by
  have hpoint : c ≠ '.' := by rintro rfl; cases hc
  rw [step_cons, h c cs rfl]
  simp only [hc, hpoint, decide_false, Bool.false_and, Bool.false_eq_true, if_false, Bool.not_false,
    Bool.and_true, if_true]

/-- Behind the digits, and where no fraction follows, the loop reads the exponent. -/
theorem ends_exponent (b : Buffer) (kind : TokenKind) (front : List Char) (h : EndsRun cs)
    (hpoint : ∀ ds, cs = '.' :: ds → (kind == .decimalInteger && startsRun ds) = false) :
    Ends step cs.length ⟨kind, false, b.take front cs⟩
      (ending b kind front cs (Numeral.exponent cs)) := by
  fun_cases Numeral.exponent cs with
  | case1 => exact .last rfl
  | case2 c hc =>
    refine .last ?_
    rw [step_of_letter h hc]
    simp [beginExponent]
  | case3 c hc sign ds hsign hrun =>
    obtain ⟨d, ds, rfl⟩ : ∃ d es, ds = d :: es :=
      List.exists_cons_of_ne_nil (by rintro rfl; cases hrun)
    have hdigit : d.isDigit = true := by simpa [startsRun] using hrun
    have hbegin : beginExponent ⟨kind, false, b.take front (c :: sign :: d :: ds)⟩ =
        (none, ⟨.float, true, b.take (front ++ [c, sign, d]) ds⟩) := by
      simp only [beginExponent, advance_take, Buffer.peek_take, List.getElem?_cons_zero, hsign,
        if_true, Option.any_some, hdigit, List.append_assoc, List.cons_append, List.nil_append]
    have htail : Numeral.run (d :: ds) = (d :: (Numeral.run ds).1, (Numeral.run ds).2) := by
      rw [Numeral.run.eq_def]
      exact if_pos hdigit
    have hlength : ds.length < (c :: sign :: d :: ds).length := by
      simp only [List.length_cons]
      omega
    refine .next ((step_of_letter h hc).trans hbegin) hlength (ends_run ?_)
    simpa [ending, htail] using ends_of_exponent (endsRun_run ds)
  | case4 c hc sign ds hsign hrun =>
    refine .last ?_
    rw [step_of_letter h hc]
    have hdigit : (ds[0]?).any Char.isDigit = false := by
      simpa [startsRun, List.head?_eq_getElem?] using hrun
    simp only [beginExponent, advance_take, Buffer.peek_take, List.getElem?_cons_zero, hsign,
      if_true, hdigit, Bool.false_eq_true, if_false, List.head?_eq_getElem?, List.append_assoc,
      List.cons_append, List.nil_append]
  | case5 c hc sign ds hsign =>
    refine .last ?_
    rw [step_of_letter h hc]
    simp only [beginExponent, advance_take, Buffer.peek_take, List.getElem?_cons_zero, hsign,
      Bool.false_eq_true, if_false]
  | case6 c ds hc =>
    refine .last ?_
    rw [step_cons, h c ds rfl, if_neg Bool.false_ne_true, if_neg, if_neg (by simpa using hc)]
    simpa using fun hc => hpoint ds (congrArg (· :: ds) hc)

/-- Behind the digits the loop reads the fraction, and then the exponent. -/
theorem ends_fraction (h : EndsRun cs) :
    Ends step cs.length ⟨.decimalInteger, false, b.take front cs⟩
      (ending b (if (fraction cs).1.isEmpty then .decimalInteger else .float)
        (front ++ (fraction cs).1) (fraction cs).2 (Numeral.exponent (fraction cs).2)) := by
  fun_cases fraction cs with
  | case1 ds hrun =>
    have hstep : step ⟨.decimalInteger, false, b.take front ('.' :: ds)⟩ =
        (none, ⟨.float, false, b.take (front ++ ['.']) ds⟩) := by
      rw [step_cons, h '.' ds rfl]
      simp [hrun]
    refine .next hstep (Nat.lt_succ_self _) (ends_run ?_)
    simpa using ends_exponent b .float (front ++ '.' :: (Numeral.run ds).1) (endsRun_run ds)
      fun _ _ => rfl
  | case2 ds hrun =>
    have hpoint : ∀ es, '.' :: ds = '.' :: es →
        (TokenKind.decimalInteger == .decimalInteger && startsRun es) = false := by
      rintro es ⟨⟩
      simpa using hrun
    simpa using ends_exponent b .decimalInteger front h hpoint
  | case3 _ hne =>
    simpa using ends_exponent b .decimalInteger front h
      fun ds hds => absurd hds (hne ds)

/-- The loop takes the digits of the number, those of its fraction, and its exponent. -/
theorem ends_step (b : Buffer) (front cs : List Char) :
    let whole := Numeral.run cs
    let part := fraction whole.2
    Ends step cs.length ⟨.decimalInteger, false, b.take front cs⟩
      (ending b (if part.1.isEmpty then .decimalInteger else .float)
        (front ++ whole.1 ++ part.1) part.2 (Numeral.exponent part.2)) :=
  ends_run (ends_fraction (endsRun_run cs))

end Decimal

theorem marked_taking (hl : l.buffer.Counts) {kind : TokenKind}
    (hk : kind = .decimalInteger ∨ kind = .float) (text rest : List Char) :
    found (if ((l.taking text rest).buffer.peek 0).any fun c => c = 'j' || c = 'J' then
        (l.taking text rest).advance.numberToken .imaginary l.begin
      else (l.taking text rest).numberToken kind l.begin) =
      l.reads (Numeral.marked kind text rest) := by
  have hmeasured : Piece.isMeasured kind = true := by rcases hk with rfl | rfl <;> rfl
  fun_cases Numeral.marked kind text rest with
  | case1 => exact numberToken_taking hl (x := ⟨.token kind text, text, []⟩) rfl hmeasured
  | case2 j cs hj =>
    rw [if_pos (by simpa using hj), advance_taking]
    exact numberToken_taking hl (x := ⟨.token .imaginary (text ++ [j]), text ++ [j], cs⟩) rfl rfl
  | case3 j cs hj =>
    rw [if_neg (by simpa using hj)]
    exact numberToken_taking hl (x := ⟨.token kind text, text, j :: cs⟩) rfl hmeasured

theorem lexDecimal_taking (hl : l.buffer.Counts) (hs : cs.length < l.steps) (c : Char) :
    found ((l.taking [c] cs).lexDecimal l.begin) = l.reads (Numeral.decimal c cs) := by
  have hends := Decimal.ends_step l.buffer [c] cs l.steps hs
  unfold lexDecimal Numeral.decimal
  dsimp only at hends ⊢
  rw [steps_taking, buffer_taking, hends]
  cases Numeral.exponent (Numeral.fraction (Numeral.run cs).2).2 with
  | absent =>
    refine marked_taking hl ?_ _ _
    split <;> simp
  | present more rest => exact marked_taking hl (.inr rfl) _ _
  | broken cause taken rest =>
    exact (reads_of_fault (x := ⟨.fault cause, _ ++ taken, rest⟩) rfl).symm

theorem lexNumber_taking (hl : l.buffer.Counts) (hs : cs.length < l.steps) (c : Char) :
    found ((l.taking [c] cs).lexNumber c l.begin) = l.reads (Numeral.scan c cs) := by
  have hdecimal := lexDecimal_taking hl hs c
  unfold lexNumber
  fun_cases Numeral.scan c cs with
  | case1 =>
    rw [show (if c = '0' then (l.taking [c] []).buffer.peek 0 else none) = none from ite_self none]
    exact hdecimal
  | case2 d ds hc r hr =>
    obtain rfl := hc
    have hmeasured : Piece.isMeasured r.kind = true := by
      have hall : ∀ r ∈ [Radix.hexadecimal, .binary, .octal], Piece.isMeasured r.kind = true := by
        simp [Radix.hexadecimal, Radix.binary, Radix.octal, Piece.isMeasured]
      exact hall r (List.mem_of_find?_eq_some hr)
    simpa [hr] using lexBased_taking hl (Nat.lt_of_succ_lt hs) r hmeasured d
  | case3 d ds hc hr halpha =>
    rw [reads_of_fault (x := ⟨.fault (.unsupportedRadix d), [c], d :: ds⟩) rfl]
    simp [hc, hr, halpha, found, Except.map]
  | case4 d ds hc hr halpha => simpa [hc, hr, halpha] using hdecimal
  | case5 d ds hc => simpa [hc] using hdecimal

/-! ## Quoted texts and comments -/

end Lexer

/-- The mark begins with a character of one byte that neither escapes nor ends a line. -/
structure Closing.Plain (q : Closing) (first : Char) (others : List Char) : Prop where
  mark : q.mark = first :: others
  escape : first ≠ '\\'
  lineEnd : isLineEnd first = false
  byte : first.utf8Size = 1

namespace Closing

theorem plain_ofString : ofString.Plain '"' [] := ⟨rfl, by decide, rfl, rfl⟩

theorem plain_ofTriple : ofTriple.Plain '"' ['"', '"'] := ⟨rfl, by decide, rfl, rfl⟩

theorem plain_ofRaw : ofRaw.Plain '`' [] := ⟨rfl, by decide, rfl, rfl⟩

theorem plain_ofRune : ofRune.Plain '\'' [] := ⟨rfl, by decide, rfl, rfl⟩

theorem plain_ofComment : ofComment.Plain '*' ['/'] := ⟨rfl, by decide, rfl, rfl⟩

end Closing

namespace Lexer

variable {l : Lexer} {b : Buffer} {front cs : List Char} {q : Closing} {first : Char}
  {others : List Char}

theorem zipIdx_all_eq (mark cs : List Char) (k : Nat) :
    (mark.zipIdx k).all (fun (c, i) => cs[i]? == some c) = mark.isPrefixOf (cs.drop k) := by
  induction mark generalizing k with
  | nil => rfl
  | cons c mark ih =>
    rw [List.zipIdx_cons, List.all_cons, ih]
    change (cs[k]? == some c && _) = _
    cases hdrop : cs.drop k with
    | nil =>
      have hnone : cs[k]? = none := List.getElem?_eq_none (List.drop_eq_nil_iff.mp hdrop)
      simp [hnone]
    | cons d ds =>
      have hsome : cs[k]? = some d := by rw [← List.head?_drop, hdrop, List.head?_cons]
      have htail : cs.drop (k + 1) = ds := by rw [← List.tail_drop, hdrop, List.tail_cons]
      rw [hsome, htail, List.isPrefixOf, Bool.beq_comm]
      rfl

theorem closes_take (hq : q.Plain first others) (b : Buffer) (front cs : List Char) (c : Char) :
    closes q c (b.take front cs) = q.mark.isPrefixOf (c :: cs) := by
  have hall := zipIdx_all_eq others cs 0
  rw [List.drop_zero] at hall
  simp only [closes, hq.mark, Buffer.peek_take, List.head?_cons, List.tail_cons, hall,
    List.isPrefixOf]
  rfl

theorem closingStep_take (hq : q.Plain first others) (b : Buffer) (front cs : List Char)
    (c : Char) :
    closingStep q (b.take front (c :: cs)) =
      if q.mark.isPrefixOf (c :: cs) then (some true, b.take (front ++ [c]) cs)
      else if q.escapes && c = '\\' then
        match cs with
        | [] => (some false, b.take (front ++ [c]) [])
        | d :: ds => (none, b.take (front ++ [c, d]) ds)
      else if q.oneLine && isLineEnd c then (some false, b.take (front ++ [c]) cs)
      else (none, b.take (front ++ [c]) cs) := by
  unfold closingStep
  rw [Buffer.advance_take]
  dsimp only
  rw [closes_take hq]
  by_cases hmark : q.mark.isPrefixOf (c :: cs) = true
  · obtain rfl : first = c := by
      rw [hq.mark, List.isPrefixOf, Bool.and_eq_true] at hmark
      exact beq_iff_eq.mp hmark.1
    simp [hmark, hq.lineEnd, hq.escape]
  · by_cases hescape : c = '\\'
    · subst hescape
      have hend : isLineEnd '\\' = false := rfl
      cases cs <;> simp [hmark, hend]
    · simp [hmark, hescape]

/-- Where the loop ends that looks for the closing mark. -/
def enclosing (b : Buffer) (first : Char) (others front : List Char) :
    Enclosed → Option Bool × Buffer
  | .closed text rest => (some true, b.take (front ++ text ++ [first]) (others ++ rest))
  | .cut taken rest => (some false, b.take (front ++ taken) rest)

theorem enclosing_behind (b : Buffer) (first : Char) (others front more : List Char)
    (e : Enclosed) :
    enclosing b first others front (e.behind more) =
      enclosing b first others (front ++ more) e := by
  cases e <;> simp [enclosing, Enclosed.behind]

/-- The loop goes on to the first character of the mark that closes the text. -/
theorem ends_closingStep (hq : q.Plain first others) (b : Buffer) (front cs : List Char) :
    Ends (closingStep q) cs.length (b.take front cs)
      (enclosing b first others front (q.read cs)) := by
  fun_induction Closing.read q cs generalizing front with
  | case1 =>
    rw [enclosing, List.append_nil]
    exact .last rfl
  | case2 c cs hmark =>
    refine .last ?_
    rw [closingStep_take hq, if_pos hmark]
    obtain ⟨rest, hrest⟩ := List.isPrefixOf_iff_prefix.mp hmark
    rw [hq.mark] at hrest ⊢
    obtain ⟨rfl, rfl⟩ := List.cons.inj hrest
    simp
  | case3 c hescape hmark =>
    refine .last ?_
    rw [closingStep_take hq, if_neg hmark, if_pos hescape]
  | case4 c hescape d ds hmark ih =>
    rw [enclosing_behind]
    refine .next ?_ (by simp only [List.length_cons]; omega) (ih (front ++ [c, d]))
    rw [closingStep_take hq, if_neg hmark, if_pos hescape]
  | case5 c cs hmark hescape hend =>
    refine .last ?_
    rw [closingStep_take hq, if_neg hmark, if_neg hescape, if_pos hend]
  | case6 c cs hmark hescape hend ih =>
    rw [enclosing_behind]
    refine .next ?_ (Nat.lt_succ_self _) (ih (front ++ [c]))
    rw [closingStep_take hq, if_neg hmark, if_neg hescape, if_neg hend]

theorem lexLiteral_taking (hq : q.Plain first others) (hl : l.buffer.Counts)
    (hs : cs.length < l.steps) (kind : TokenKind) (hk : Piece.isMeasured kind = false)
    (hdepth : kind.depth = 0) (unclosed : LexicalError) (opening : List Char) :
    found ((l.taking opening cs).lexLiteral q kind unclosed l.begin) =
      l.reads (q.literal kind unclosed opening cs) := by
  have hends := ends_closingStep hq l.buffer opening cs l.steps hs
  unfold lexLiteral Closing.literal
  rw [steps_taking, buffer_taking, hends]
  cases q.read cs with
  | cut taken rest =>
    exact (reads_of_fault (x := ⟨.fault unclosed, opening ++ taken, rest⟩) rfl).symm
  | closed text rest =>
    -- The mark begins with one byte, so that the text ends at the offset less one.
    have hstop : (l.buffer.take (opening ++ text ++ [first]) (others ++ rest)).offset - 1 =
        l.buffer.offset + byteLength opening + byteLength text := by
      simp only [Buffer.offset_take, byteLength_append, byteLength_cons, byteLength_nil, hq.byte]
      omega
    have htext := Buffer.slice_take hl opening text [first] (others ++ rest)
    have htail := advanceBy_taking l (opening ++ text ++ [first]) others rest
    rw [reads_of_token (x := ⟨.token kind text, opening ++ text ++ q.mark, rest⟩) rfl hk hdepth]
    dsimp only [enclosing]
    rw [hstop, Buffer.offset_take, htext, hq.mark]
    change (_, (l.taking _ _).advanceBy others.length) = _
    rw [htail]
    simp [Except.map]

theorem peek_zero_iff {c : Char} :
    (l.taking front cs).buffer.peek 0 = some c ↔ ∃ ds, cs = c :: ds := by
  rw [buffer_taking, Buffer.peek_take, ← List.head?_eq_getElem?, List.head?_eq_some_iff]

theorem lexString_taking (hl : l.buffer.Counts) (hs : cs.length < l.steps) :
    found ((l.taking ['"'] cs).lexString l.begin) = l.reads (quotedString cs) := by
  unfold lexString
  by_cases hfirst : (l.taking ['"'] cs).buffer.peek 0 = some '"'
  · obtain ⟨ds, rfl⟩ := peek_zero_iff.mp hfirst
    rw [if_pos hfirst]
    by_cases hsecond : (l.taking ['"'] ('"' :: ds)).buffer.peek 1 = some '"'
    · obtain ⟨es, rfl⟩ := List.head?_eq_some_iff.mp (List.head?_eq_getElem?.trans hsecond)
      have hskip : (l.taking ['"'] ('"' :: '"' :: es)).advanceBy 2 = l.taking ['"', '"', '"'] es :=
        advanceBy_taking l ['"'] ['"', '"'] es
      have hlength : es.length < l.steps := by
        simp only [List.length_cons] at hs
        omega
      rw [if_pos hsecond, hskip,
        lexLiteral_taking Closing.plain_ofTriple hl hlength .tripleString rfl rfl]
      rfl
    · have hread : quotedString ('"' :: ds) = ⟨.token .string [], ['"', '"'], ds⟩ := by
        have hclosed : Closing.ofString.read ('"' :: ds) = .closed [] ds := by
          rw [Closing.read.eq_def]
          rfl
        rw [quotedString, if_neg]
        · rw [Closing.literal, hclosed]
          rfl
        · intro hprefix
          obtain ⟨es, hes⟩ := List.isPrefixOf_iff_prefix.mp hprefix
          obtain ⟨-, rfl⟩ := List.cons.inj hes
          exact hsecond rfl
      rw [if_neg hsecond, hread, advance_taking,
        reads_of_token (x := ⟨.token .string [], _, ds⟩) rfl rfl rfl]
      rfl
  · have hread : quotedString cs =
        Closing.ofString.literal .string .unterminatedString ['"'] cs := by
      rw [quotedString, if_neg]
      intro hprefix
      obtain ⟨es, hes⟩ := List.isPrefixOf_iff_prefix.mp hprefix
      exact hfirst (peek_zero_iff.mpr ⟨_, hes.symm⟩)
    rw [if_neg hfirst, hread]
    exact lexLiteral_taking Closing.plain_ofString hl hs .string rfl rfl _ _

theorem lexRawString_taking (hl : l.buffer.Counts) (hs : cs.length < l.steps) :
    found ((l.taking ['`'] cs).lexRawString l.begin) = l.reads (rawString cs) :=
  lexLiteral_taking Closing.plain_ofRaw hl hs .rawString rfl rfl _ _

theorem lexRune_taking (hl : l.buffer.Counts) (hs : cs.length < l.steps) :
    found ((l.taking ['\''] cs).lexRune l.begin) = l.reads (rune cs) := by
  unfold lexRune
  fun_cases rune cs with
  | case1 cs =>
    rw [reads_of_fault (x := ⟨.fault .emptyRune, ['\'', '\''], cs⟩) rfl]
    simp [found, Except.map]
  | case2 cs hne =>
    rw [if_neg (mt peek_zero_iff.mp (by rintro ⟨ds, rfl⟩; exact hne ds rfl))]
    exact lexLiteral_taking Closing.plain_ofRune hl hs .rune rfl rfl _ _

theorem lexBlockComment_taking (hs : cs.length < l.steps) :
    (.ok none, (l.taking ['/'] ('*' :: cs)).lexBlockComment l.begin) =
      l.reads (blockComment cs) := by
  have hends := ends_closingStep Closing.plain_ofComment l.buffer ['/', '*'] cs l.steps hs
  unfold lexBlockComment blockComment
  rw [advance_taking, steps_taking, buffer_taking, List.singleton_append, hends]
  cases Closing.ofComment.read cs with
  | closed text rest =>
    rw [reads_of_trivia rfl]
    simp [enclosing, taking]
  | cut taken rest => simp [enclosing, reads, past, taking, Piece.warning?, Piece.depth, warn]

theorem skipLine_taking (hs : cs.length < l.steps) (front : List Char) :
    (l.taking front cs).skipLine =
      l.taking (front ++ cs.takeWhile (!isLineEnd ·)) (cs.dropWhile (!isLineEnd ·)) :=
  eatWhile_taking hs front _

/-- The comment behind what opens it, which is of the given kind. -/
theorem lineComment_taking (hl : l.buffer.Counts) (hs : cs.length < l.steps) {kind : TokenKind}
    (hk : kind = .comment ∨ kind = .docComment) (front : List Char) :
    let body := (l.taking front cs).buffer.offset
    let l' := (l.taking front cs).skipLine
    let text := String.ofList (trim (l'.buffer.slice body l'.buffer.offset))
    let found : Option Token × Lexer :=
      if text.isEmpty then (none, l') else (some (l.begin.token kind text), l')
    (.ok found.1, found.2) = l.reads (Piece.lineComment kind front cs) := by
  intro body l' text found
  have hl' : l' = l.taking (front ++ cs.takeWhile (!isLineEnd ·)) (cs.dropWhile (!isLineEnd ·)) :=
    skipLine_taking hs front
  have hslice := textFrom_taking_append hl front (cs.takeWhile (!isLineEnd ·))
    (cs.dropWhile (!isLineEnd ·))
  have hbody : body = l.buffer.offset + byteLength front := Buffer.offset_take
  have htext : text = String.ofList (trim (cs.takeWhile (!isLineEnd ·))) := by
    rw [textFrom, ← hl', ← hbody, String.ofList_inj] at hslice
    rw [← hslice]
  have hmeasured : Piece.isMeasured kind = false := by rcases hk with rfl | rfl <;> rfl
  have hdepth : kind.depth = 0 := by rcases hk with rfl | rfl <;> rfl
  by_cases hblank : trim (cs.takeWhile (!isLineEnd ·)) = []
  · have hread : (Piece.lineComment kind front cs).reading = .trivia := by
      simp [Piece.lineComment, hblank]
    have hfound : found = (none, l') := if_pos (by rw [htext, hblank]; rfl)
    rw [reads_of_trivia hread, hfound, hl']
    rfl
  · have hread : (Piece.lineComment kind front cs).reading =
        .token kind (trim (cs.takeWhile (!isLineEnd ·))) := by
      simp [Piece.lineComment, hblank]
    have hfound : found = (some (l.begin.token kind text), l') :=
      if_neg (by simpa [htext] using hblank)
    rw [reads_of_token hread hmeasured hdepth, hfound, hl', htext]
    rfl

theorem lexLineComment_of_doc (hl : l.buffer.Counts) (hs : cs.length < l.steps) :
    (.ok ((l.taking ['/', '/'] ('/' :: cs)).lexLineComment l.begin).1,
      ((l.taking ['/', '/'] ('/' :: cs)).lexLineComment l.begin).2) =
      l.reads (Piece.lineComment .docComment ['/', '/', '/'] cs) := by
  have hdoc : decide ((l.taking ['/', '/'] ('/' :: cs)).buffer.peek 0 = some '/') &&
      decide ((l.taking ['/', '/'] ('/' :: cs)).buffer.previous 1 = some '/') := by
    simp [Buffer.previous]
  rw [← lineComment_taking hl hs (.inr rfl)]
  unfold lexLineComment
  simp only [hdoc, if_true, advance_taking]
  rfl

theorem lexLineComment_of_plain (hl : l.buffer.Counts) (hs : cs.length < l.steps)
    (h : (decide ((l.taking front cs).buffer.peek 0 = some '/') &&
      decide ((l.taking front cs).buffer.previous 1 = some '/')) = false) :
    (.ok ((l.taking front cs).lexLineComment l.begin).1,
      ((l.taking front cs).lexLineComment l.begin).2) =
      l.reads (Piece.lineComment .comment front cs) := by
  rw [← lineComment_taking hl hs (.inl rfl)]
  unfold lexLineComment
  simp only [h, Bool.false_eq_true, if_false]

/-! ## Marks -/

theorem count_eq (l : Lexer) (k : TokenKind) :
    l.count k = { l with depth := l.depth + k.depth } := by
  unfold count TokenKind.depth
  split
  · rfl
  · rfl
  · simp

theorem lexMark_taking (hl : l.buffer.Counts) (c : Char) :
    found ((l.taking [c] cs).lexMark c l.begin) = l.reads (Piece.mark c cs) := by
  have hpeek : Mark.find? c ((l.taking [c] cs).buffer.peek 0) ((l.taking [c] cs).buffer.peek 1) =
      Mark.find? c cs[0]? cs[1]? := rfl
  unfold lexMark
  rw [hpeek]
  cases hm : Mark.find? c cs[0]? cs[1]? with
  | none =>
    have hread : Piece.mark c cs = ⟨.fault (.invalidCharacter c), [c], cs⟩ := by
      rw [Piece.mark, Mark.mark?_of_find?_none hm]
    rw [hread, reads_of_fault rfl]
    rfl
  | some m =>
    obtain ⟨hk, hlength⟩ := Mark.find?_spec hm
    have hmeasured : ∀ k ∈ TokenKind.marks, Piece.isMeasured k = false := by decide
    have hunmeasured := hmeasured m.kind (List.mem_of_find?_eq_some hk)
    obtain ⟨rest, hrest⟩ := TokenKind.isPrefix_of_mark? hk
    obtain ⟨others, hname, rfl⟩ :
        ∃ others, m.kind.name.toList = c :: others ∧ cs = others ++ rest := by
      obtain ⟨d, others, hname⟩ := List.exists_cons_of_ne_nil m.kind.name_ne_nil
      rw [hname] at hrest
      obtain ⟨rfl, hcs⟩ := List.cons.inj hrest
      exact ⟨others, hname, hcs.symm⟩
    have hextra : m.extra = others.length := by
      rw [← String.length_toList, hname] at hlength
      exact (Nat.succ.inj hlength).symm
    have hread : Piece.mark c (others ++ rest) =
        ⟨.token m.kind (c :: others), c :: others, rest⟩ := by
      rw [Piece.mark, hk]
      simp [← String.length_toList, hname]
    have htaken : ((l.taking [c] (others ++ rest)).count m.kind).advanceBy others.length =
        { l.taking (c :: others) rest with depth := l.depth + m.kind.depth } := by
      rw [count_eq]
      exact congrArg (fun l' : Lexer => { l' with depth := l.depth + m.kind.depth })
        (advanceBy_taking l [c] others rest)
    have htext := textFrom_taking hl (c :: others) rest
    dsimp only
    rw [hread, hextra, htaken]
    simp only [found, Except.map, reads, past, Piece.warning?, Piece.depth, hunmeasured,
      Bool.false_and, Bool.false_eq_true, if_false, Option.map_none, Option.toList_none,
      List.nil_append]
    rw [← htext]
    rfl

/-! ## Tokens -/

/-- A slash opens a comment, or it is a mark. -/
theorem slash_taking (hl : l.buffer.Counts) (hs : cs.length < l.steps) :
    (if (l.taking ['/'] cs).buffer.peek 0 = some '/' then
        let comment := (l.taking ['/'] cs).advance.lexLineComment l.begin
        (.ok comment.1, comment.2)
      else if (l.taking ['/'] cs).buffer.peek 0 = some '*' then
        (.ok none, (l.taking ['/'] cs).lexBlockComment l.begin)
      else found ((l.taking ['/'] cs).lexMark '/' l.begin)) = l.reads (Piece.slash cs) := by
  fun_cases Piece.slash cs with
  | case1 cs =>
    have hlength : cs.length < l.steps := Nat.lt_of_succ_lt (Nat.lt_of_succ_lt hs)
    rw [if_pos (peek_zero_iff.mpr ⟨_, rfl⟩), advance_taking]
    exact lexLineComment_of_doc hl hlength
  | case2 cs hne =>
    have hplain : (decide ((l.taking ['/', '/'] cs).buffer.peek 0 = some '/') &&
        decide ((l.taking ['/', '/'] cs).buffer.previous 1 = some '/')) = false := by
      rw [decide_eq_false (mt peek_zero_iff.mp (not_exists.mpr hne)), Bool.false_and]
    rw [if_pos (peek_zero_iff.mpr ⟨_, rfl⟩), advance_taking]
    exact lexLineComment_of_plain hl (Nat.lt_of_succ_lt hs) hplain
  | case3 cs =>
    rw [if_neg (mt peek_zero_iff.mp (by simp)), if_pos (peek_zero_iff.mpr ⟨_, rfl⟩)]
    exact lexBlockComment_taking (Nat.lt_of_succ_lt hs)
  | case4 _ _ hslash hstar =>
    rw [if_neg (mt peek_zero_iff.mp (not_exists.mpr hslash)),
      if_neg (mt peek_zero_iff.mp (not_exists.mpr hstar))]
    exact lexMark_taking hl '/'

theorem isBlank_of_isLineEnd {c : Char} (h : isLineEnd c = true) : Unicode.isBlank c = true := by
  simp only [isLineEnd, Bool.or_eq_true, decide_eq_true_eq] at h
  rcases h with rfl | rfl <;> rfl

/-- What the lexer reads is the piece in front of it, but for what a source opens with. -/
theorem lexToken_taking (hl : l.buffer.Counts) (hs : cs.length < l.steps) (c : Char)
    (hmark : ¬(c = byteOrderMark ∧ l.begin.offset = 0))
    (hline : ¬(['#', '!', '/'] <+: c :: cs ∧ (l.taking [c] cs).atFirstCharacter l.begin = true)) :
    (l.taking [c] cs).lexToken c l.begin = l.reads (Piece.first c cs) := by
  unfold lexToken Piece.first
  rw [if_neg (by simpa using hmark)]
  by_cases hblank : Unicode.isBlank c = true
  · rw [if_pos hblank, if_pos hblank, ite_self, reads_of_trivia rfl]
  rw [if_neg (mt isBlank_of_isLineEnd hblank), if_neg hblank, if_neg hblank]
  by_cases hword : isWordStart c = true
  · rw [if_pos hword, if_pos hword]
    exact lexWord_taking hl hs c
  rw [if_neg hword, if_neg hword]
  by_cases hdigit : c.isDigit = true
  · rw [if_pos hdigit, if_pos hdigit]
    exact lexNumber_taking hl hs c
  rw [if_neg hdigit, if_neg hdigit]
  by_cases hquote : c = '"'
  · rw [if_pos hquote, if_pos hquote, hquote]
    exact lexString_taking hl hs
  rw [if_neg hquote, if_neg hquote]
  by_cases hbackquote : c = '`'
  · rw [if_pos hbackquote, if_pos hbackquote, hbackquote]
    exact lexRawString_taking hl hs
  rw [if_neg hbackquote, if_neg hbackquote]
  by_cases hrune : c = '\''
  · rw [if_pos hrune, if_pos hrune, hrune]
    exact lexRune_taking hl hs
  rw [if_neg hrune, if_neg hrune]
  by_cases hslash : c = '/'
  · subst hslash
    rw [if_pos rfl, ← slash_taking hl hs]
    by_cases hslashes : (l.taking ['/'] cs).buffer.peek 0 = some '/'
    · rw [if_pos (by rw [decide_eq_true hslashes]; rfl), if_pos hslashes]
    rw [if_neg (by rw [decide_eq_false hslashes]; decide), if_neg hslashes]
    by_cases hstar : (l.taking ['/'] cs).buffer.peek 0 = some '*'
    · rw [if_pos (by rw [decide_eq_true hstar]; rfl), if_pos hstar]
    · rw [if_neg (by rw [decide_eq_false hstar]; decide), if_neg hstar, if_neg (by simp),
        if_neg (by decide), if_neg (by decide)]
  rw [if_neg (by simp [hslash]), if_neg (by simp [hslash]), if_neg hslash]
  by_cases hsharp : c = '#'
  · subst hsharp
    rw [if_neg, if_pos rfl, if_pos rfl]
    · exact lexLineComment_of_plain hl hs (by simp [Buffer.previous])
    · simp only [decide_true, Bool.true_and, Bool.and_eq_true, decide_eq_true_eq]
      rintro ⟨⟨hfirst, hbang⟩, hpath⟩
      obtain ⟨ds, rfl⟩ := peek_zero_iff.mp hbang
      obtain ⟨es, rfl⟩ := List.head?_eq_some_iff.mp (List.head?_eq_getElem?.trans hpath)
      exact hline ⟨⟨es, rfl⟩, hfirst⟩
  · rw [if_neg (by simp [hsharp]), if_neg hsharp, if_neg hsharp]
    by_cases hat : c = '@'
    · rw [if_pos hat, if_pos hat, hat]
      exact lexBuiltin_taking hl hs
    · rw [if_neg hat, if_neg hat]
      exact lexMark_taking hl c

end Lexer

end FrontEnd
