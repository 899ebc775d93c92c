import FrontEnd.Proofs.Lexer.Spelling

/-!
A token is settled by its lexeme where nothing follows that it would go on with. What a
scanner looks for behind the front it takes are words without a space or a new line, within
a comment words without a new line. So before another text, if it begins with no such word
that the old one does not begin with, the same piece is read again.
-/

namespace FrontEnd

/-- What may stand between two lexemes. -/
def separators : List Char := [' ', '\n']

theorem forall_separators {P : Char → Prop} : (∀ b ∈ separators, P b) ↔ P ' ' ∧ P '\n' := by
  simp [separators]

/-- Every word without `stops` that `rest` begins with, `back` begins with as well. -/
def Narrower (stops rest back : List Char) : Prop :=
  ∀ word, (∀ b ∈ stops, b ∉ word) → word <+: rest → word <+: back

namespace Narrower

variable {stops rest back : List Char}

theorem refl (stops rest : List Char) : Narrower stops rest rest := fun _ _ hw => hw

theorem nil : Narrower stops [] back := fun _ _ hw => hw.trans List.nil_prefix

theorem eq_nil (h : Narrower [] rest []) : rest = [] :=
  List.prefix_nil.mp (h rest nofun List.prefix_rfl)

/-- No word without stops goes over a stop. -/
theorem of_stop {b : Char} (hb : b ∈ stops) (cs : List Char) : Narrower stops (b :: cs) back := by
  intro word hw hp
  cases word with
  | nil => exact List.nil_prefix
  | cons c word =>
    obtain ⟨rfl, -⟩ := List.cons_prefix_cons.mp hp
    exact absurd List.mem_cons_self (hw c hb)

theorem mono {stops' : List Char} (hs : stops ⊆ stops') (h : Narrower stops rest back) :
    Narrower stops' rest back :=
  fun word hw => h word fun b hb => hw b (hs hb)

theorem append (h : Narrower stops rest back) (front : List Char) :
    Narrower stops (front ++ rest) (front ++ back) := by
  intro word hw hp
  rcases Nat.le_total word.length front.length with hl | hl
  · exact (List.prefix_of_prefix_length_le hp (List.prefix_append _ _) hl).trans
      (List.prefix_append _ _)
  · obtain ⟨more, rfl⟩ := List.prefix_of_prefix_length_le (List.prefix_append _ _) hp hl
    rw [List.prefix_append_right_inj] at hp ⊢
    exact h more (fun b hb hmore => hw b hb (List.mem_append_right _ hmore)) hp

/-- What is true of the stops and of what the one text begins with is true of what the other
begins with. -/
theorem head {P : Char → Prop} (h : Narrower stops rest back) (hs : ∀ b ∈ stops, P b)
    (hb : ∀ d ∈ back.head?, P d) : ∀ d ∈ rest.head?, P d := by
  intro d hd
  obtain ⟨cs, rfl⟩ := List.head?_eq_some_iff.mp hd
  by_cases hstop : d ∈ stops
  · exact hs d hstop
  · obtain ⟨ds, rfl⟩ := h [d] (fun b hb hbd => hstop (List.mem_singleton.mp hbd ▸ hb)) ⟨cs, rfl⟩
    exact hb d rfl

section Runs

variable {p : Char → Bool} {cs : List Char}

/-- Behind a run of characters stands none that goes on with it. -/
theorem head_dropWhile (hp : ∀ b ∈ stops, p b = false) (h : Narrower stops rest (cs.dropWhile p)) :
    ∀ d ∈ rest.head?, p d = false := by
  refine h.head hp fun d hd => ?_
  have hnot := List.head?_dropWhile_not p cs
  rw [Option.mem_def.mp hd] at hnot
  simpa using hnot

theorem takeWhile (hp : ∀ b ∈ stops, p b = false) (h : Narrower stops rest (cs.dropWhile p)) :
    (cs.takeWhile p ++ rest).takeWhile p = cs.takeWhile p := by
  have hhead := h.head_dropWhile hp
  rw [List.takeWhile_append_of_pos fun c hc => List.all_eq_true.mp List.all_takeWhile c hc]
  cases rest with
  | nil => exact List.append_nil _
  | cons d ds => rw [List.takeWhile_cons_of_neg (by simp [hhead d rfl]), List.append_nil]

theorem dropWhile (hp : ∀ b ∈ stops, p b = false) (h : Narrower stops rest (cs.dropWhile p)) :
    (cs.takeWhile p ++ rest).dropWhile p = rest := by
  have hhead := h.head_dropWhile hp
  rw [List.dropWhile_append_of_pos fun c hc => List.all_eq_true.mp List.all_takeWhile c hc]
  cases rest with
  | nil => rfl
  | cons d ds => rw [List.dropWhile_cons_of_neg (by simp [hhead d rfl])]

end Runs

end Narrower

/-- What ends a piece that would otherwise go on. Nothing ends a comment that is left open. -/
def Reading.stops : Reading → List Char
  | .token kind _ => if kind.isTrivia then ['\n'] else separators
  | .trivia => ['\n']
  | .openComment => []
  | .fault _ => []

theorem Reading.stops_subset (r : Reading) : r.stops ⊆ separators := by
  unfold stops
  split
  · split <;> decide
  all_goals decide

theorem Narrower.separated {r : Reading} {rest back : List Char}
    (h : Narrower r.stops rest back) : Narrower separators rest back := h.mono r.stops_subset

/-- `scan` reads what stands behind `c`. What it reads, unless that is a fault, it reads again
before any text that is narrower than the one behind it. -/
def Steady (scan : List Char → Piece) (c : Char) : Prop :=
  ∀ cs, (scan cs).isFault = false → ∃ reading lexeme back, lexeme ++ back = cs ∧
    ∀ rest, Narrower reading.stops rest back → scan (lexeme ++ rest) = ⟨reading, c :: lexeme, rest⟩

theorem Steady.of_ite {p : Prop} [Decidable p] {scan scan' : List Char → Piece} {c : Char}
    (h : p → Steady scan c) (h' : ¬p → Steady scan' c) :
    Steady (fun cs => if p then scan cs else scan' cs) c := by
  by_cases hp : p
  · simpa [hp] using h hp
  · simpa [hp] using h' hp

/-! ## Enclosed texts -/

namespace Closing

variable {q : Closing} {cs text back : List Char}

theorem read_of_prefix {cs : List Char} (h : q.mark <+: cs) (hm : q.mark ≠ []) :
    q.read cs = .closed [] (cs.drop q.mark.length) := by
  cases cs with
  | nil => exact absurd (List.prefix_nil.mp h) hm
  | cons c cs => rw [read.eq_def]; exact if_pos (List.isPrefixOf_iff_prefix.mpr h)

/-- Where the mark does not begin, it does not begin with other text behind it. -/
theorem not_prefix_append (front : List Char) {back : List Char}
    (h : ¬q.mark <+: front ++ q.mark ++ back) (rest : List Char) :
    ¬q.mark <+: front ++ q.mark ++ rest := by
  intro hp
  have hle : q.mark.length ≤ (front ++ q.mark).length := by simp
  exact h ((List.prefix_of_prefix_length_le hp (List.prefix_append _ _) hle).trans
    (List.prefix_append _ _))

theorem closed_of_behind {front : List Char} {e : Enclosed}
    (h : e.behind front = .closed text back) :
    ∃ more, e = .closed more back ∧ text = front ++ more := by
  cases e with
  | closed more rest =>
    cases h
    exact ⟨more, rfl, rfl⟩
  | cut => cases h

/-- An enclosed text ends at its mark, whatever follows. -/
theorem read_append (hm : q.mark ≠ []) (h : q.read cs = .closed text back) (rest : List Char) :
    q.read (text ++ q.mark ++ rest) = .closed text rest := by
  have hsource := q.source_read cs
  rw [h] at hsource
  change text ++ q.mark ++ back = cs at hsource
  fun_induction Closing.read q cs generalizing text with
  | case1 => cases h
  | case2 c cs hp =>
    cases h
    rw [List.nil_append, read_of_prefix (List.prefix_append _ _) hm, List.drop_left]
  | case3 => cases h
  | case4 c he d ds hp ih =>
    obtain ⟨more, hmore, rfl⟩ := closed_of_behind h
    simp only [List.cons_append, List.nil_append, List.cons.injEq, true_and] at hsource ⊢
    rw [List.isPrefixOf_iff_prefix, ← hsource] at hp
    rw [read.eq_def]
    have hp := not_prefix_append (c :: d :: more) hp rest
    simp only [List.cons_append, ← List.isPrefixOf_iff_prefix] at hp
    simp only [if_neg hp, if_pos he, ih hmore hsource]
    rfl
  | case5 => cases h
  | case6 c cs hp he hl ih =>
    obtain ⟨more, hmore, rfl⟩ := closed_of_behind h
    simp only [List.cons_append, List.nil_append, List.cons.injEq, true_and] at hsource ⊢
    rw [List.isPrefixOf_iff_prefix, ← hsource] at hp
    rw [read.eq_def]
    have hp := not_prefix_append (c :: more) hp rest
    simp only [List.cons_append, ← List.isPrefixOf_iff_prefix] at hp
    simp only [if_neg hp, if_neg he, if_neg hl, ih hmore hsource]
    rfl

/-- A literal that is closed is read again before any text. -/
theorem literal_append (hm : q.mark ≠ []) {kind : TokenKind} {unclosed : LexicalError}
    {opening : List Char} (h : (q.literal kind unclosed opening cs).isFault = false) :
    ∃ text back, text ++ q.mark ++ back = cs ∧
      ∀ rest, q.literal kind unclosed opening (text ++ q.mark ++ rest) =
        ⟨.token kind text, opening ++ text ++ q.mark, rest⟩ := by
  have hsource := q.source_read cs
  unfold literal at h ⊢
  cases hr : q.read cs with
  | cut taken rest => simp [hr, Piece.isFault] at h
  | closed text back =>
    rw [hr] at hsource
    exact ⟨text, back, hsource, fun rest => by rw [read_append hm hr rest]⟩

end Closing

theorem rawString_steady : Steady rawString '`' := by
  intro cs hf
  obtain ⟨text, back, hcs, hread⟩ := Closing.literal_append (by decide) hf
  exact ⟨.token .rawString text, text ++ ['`'], back, hcs, fun rest _ => hread rest⟩

theorem quotedString_steady : Steady quotedString '"' := by
  intro cs hf
  by_cases hp : ['"', '"'].isPrefixOf cs = true
  · obtain ⟨ds, rfl⟩ := List.isPrefixOf_iff_prefix.mp hp
    obtain ⟨text, back, rfl, hread⟩ := Closing.literal_append (q := .ofTriple) (by decide) hf
    exact ⟨.token .tripleString text, ['"', '"'] ++ text ++ ['"', '"', '"'], back, by simp; rfl,
      fun rest _ => hread rest⟩
  · unfold quotedString at hf ⊢
    rw [if_neg hp] at hf
    obtain ⟨text, back, rfl, hread⟩ := Closing.literal_append (by decide) hf
    refine ⟨.token .string text, text ++ ['"'], back, rfl, fun rest hrest => ?_⟩
    -- A quote behind an empty string would make it the opening of a triple one.
    have hrest : Narrower separators (text ++ ['"'] ++ rest) (text ++ ['"'] ++ back) :=
      hrest.separated.append _
    rw [if_neg fun hquotes => hp ?_]
    · exact hread rest
    · rw [List.isPrefixOf_iff_prefix] at hquotes ⊢
      exact hrest _ (forall_separators.mpr (by decide)) hquotes

theorem rune_of_head {cs : List Char} (h : cs.head? ≠ some '\'') :
    rune cs = Closing.ofRune.literal .rune .unterminatedRune ['\''] cs := by
  unfold rune
  split
  · simp at h
  · rfl

theorem rune_steady : Steady rune '\'' := by
  intro cs hf
  by_cases hempty : cs.head? = some '\''
  · obtain ⟨cs, rfl⟩ := List.head?_eq_some_iff.mp hempty
    cases hf
  · rw [rune_of_head hempty] at hf
    obtain ⟨text, back, rfl, hread⟩ := Closing.literal_append (by decide) hf
    refine ⟨.token .rune text, text ++ ['\''], back, rfl, fun rest hrest => ?_⟩
    have hrest : Narrower separators (text ++ ['\''] ++ rest) (text ++ ['\''] ++ back) :=
      hrest.separated.append _
    have hback : ∀ d ∈ (text ++ ['\''] ++ back).head?, d ≠ '\'' := by
      rintro d hd rfl
      exact hempty hd
    have hhead := hrest.head (forall_separators.mpr (by decide)) hback
    rw [rune_of_head fun hquote => hhead _ hquote rfl]
    exact hread rest

/-! ## Numbers -/

namespace Numeral

variable {cs rest back : List Char} {d : Char}

theorem run_digit (hd : d.isDigit = true) (cs : List Char) :
    run (d :: cs) = (d :: (run cs).1, (run cs).2) := by
  rw [run.eq_def]
  simp [hd]

theorem run_underscore (hd : d.isDigit = true) (cs : List Char) :
    run ('_' :: d :: cs) = ('_' :: d :: (run cs).1, (run cs).2) := by
  rw [run.eq_def]
  simp [hd]

theorem run_of_stop (cs : List Char) (hd : d.isDigit = false) (hu : d ≠ '_') :
    run (d :: cs) = ([], d :: cs) := by
  rw [run.eq_def]
  simp [hd, hu]

theorem startsRun_digit (hd : d.isDigit = true) (cs : List Char) : startsRun (d :: cs) = true := by
  simpa [startsRun] using hd

theorem startsRun_cases (h : startsRun cs = true) : ∃ d ds, d.isDigit = true ∧ cs = d :: ds := by
  cases cs with
  | nil => cases h
  | cons d ds => exact ⟨d, ds, by simpa [startsRun] using h, rfl⟩

theorem startsRun_append (h : startsRun cs = true) (rest : List Char) :
    startsRun ((run cs).1 ++ rest) = true := by
  obtain ⟨d, ds, hd, rfl⟩ := startsRun_cases h
  rw [run_digit hd]
  exact startsRun_digit hd _

theorem fraction_dot (h : startsRun cs = true) :
    fraction ('.' :: cs) = ('.' :: (run cs).1, (run cs).2) := if_pos h

theorem not_separator_of_isDigit (hd : d.isDigit = true) : ∀ b ∈ separators, b ≠ d := by
  rw [forall_separators]
  constructor <;> rintro rfl <;> cases hd

/-- Where no run goes on, none goes on in a narrower text. -/
theorem run_narrower (h : Narrower separators rest back) (hb : run back = ([], back)) :
    run rest = ([], rest) := by
  fun_cases run rest with
  | case2 c cs hd =>
    have hword : ∀ b ∈ separators, b ∉ [c] := by simpa using not_separator_of_isDigit hd
    obtain ⟨ds, rfl⟩ := h [c] hword ⟨cs, rfl⟩
    simp [run_digit hd] at hb
  | case4 d ds hd hu =>
    have hmark : ∀ b ∈ separators, b ≠ '_' := forall_separators.mpr (by decide)
    have hdigit := not_separator_of_isDigit hd
    have hword : ∀ b ∈ separators, b ∉ ['_', d] := by simp_all
    obtain ⟨more, rfl⟩ := h ['_', d] hword ⟨ds, rfl⟩
    simp [run_underscore hd] at hb
  | _ => rfl

/-- Where no fraction goes on, none goes on in a narrower text. -/
theorem fraction_narrower (h : Narrower separators rest back) (hb : fraction back = ([], back)) :
    fraction rest = ([], rest) := by
  fun_cases fraction rest with
  | case1 cs hs =>
    obtain ⟨d, ds, hd, rfl⟩ := startsRun_cases hs
    have hpoint : ∀ b ∈ separators, b ≠ '.' := forall_separators.mpr (by decide)
    have hdigit := not_separator_of_isDigit hd
    have hword : ∀ b ∈ separators, b ∉ ['.', d] := by simp_all
    obtain ⟨more, rfl⟩ := h ['.', d] hword ⟨ds, rfl⟩
    simp [fraction_dot (startsRun_digit hd more)] at hb
  | _ => rfl

theorem run_append_narrower (h : Narrower separators rest (run cs).2) :
    run ((run cs).1 ++ rest) = ((run cs).1, rest) := by
  fun_induction run cs with
  | case2 c cs hd ih => rw [List.cons_append, run_digit hd, ih h]
  | case4 d ds hd hu ih => simp only [List.cons_append, run_underscore hd, ih h]
  | case6 c cs hd hu => exact run_narrower h (run_of_stop cs (by simpa using hd) hu)
  | _ => exact run_narrower h (by simp_all [run])

theorem fraction_append_narrower (h : Narrower separators rest (fraction cs).2) :
    fraction ((fraction cs).1 ++ rest) = ((fraction cs).1, rest) := by
  revert h
  fun_cases fraction cs with
  | case1 cs hs =>
    intro h
    rw [List.cons_append, fraction_dot (startsRun_append hs rest), run_append_narrower h]
  | case2 cs hs => exact fun h => fraction_narrower h (if_neg hs)
  | case3 cs hp => exact fun h => fraction_narrower h (by simp [fraction])

theorem exponent_eq_absent_iff :
    exponent cs = .absent ↔ ∀ e ∈ cs.head?, (e = 'e' || e = 'E') = false := by
  fun_cases exponent cs <;> simp_all <;> exact Or.resolve_left ‹_›

theorem exponent_append_narrower {text : List Char} (he : exponent cs = .present text back)
    (h : Narrower separators rest back) : exponent (text ++ rest) = .present text rest := by
  fun_cases exponent cs with
  | case3 e hletter s ds hs hd =>
    simp only [exponent, if_pos hletter, if_pos hs, if_pos hd, Exponent.present.injEq] at he
    obtain ⟨rfl, rfl⟩ := he
    simp only [List.cons_append, exponent, if_pos hletter, if_pos hs,
      if_pos (startsRun_append hd rest), run_append_narrower h]
  | _ => simp_all [exponent]

theorem marked_of_head {kind : TokenKind} {text : List Char}
    (h : ∀ j ∈ cs.head?, (j = 'j' || j = 'J') = false) :
    marked kind text cs = ⟨.token kind text, text, cs⟩ := by
  cases cs with
  | nil => rfl
  | cons j ds => exact if_neg (by simpa using h j rfl)

/-- A number is read with its mark, or without one, as it was before. -/
theorem marked_steady (kind : TokenKind) (text cs : List Char) :
    ∃ k mark back, mark ++ back = cs ∧ ∀ rest, Narrower separators rest back →
      marked kind text (mark ++ rest) = ⟨.token k (text ++ mark), text ++ mark, rest⟩ := by
  by_cases hj : ∀ j ∈ cs.head?, (j = 'j' || j = 'J') = false
  · refine ⟨kind, [], cs, rfl, fun rest hrest => ?_⟩
    have hhead := hrest.head (forall_separators.mpr (by decide)) hj
    rw [List.nil_append, List.append_nil, marked_of_head hhead]
  · simp only [Classical.not_forall, Bool.not_eq_false] at hj
    obtain ⟨j, hhead, hj⟩ := hj
    obtain ⟨ds, rfl⟩ := List.head?_eq_some_iff.mp hhead
    exact ⟨.imaginary, [j], ds, rfl, fun rest _ => if_pos hj⟩

section Decimal

variable (first : Char)

/-- The digits of a number and its fraction. -/
def digits (cs : List Char) : List Char := (run cs).1 ++ (fraction (run cs).2).1

def digitsKind (cs : List Char) : TokenKind :=
  if (fraction (run cs).2).1.isEmpty then .decimalInteger else .float

def behindDigits (cs : List Char) : List Char := (fraction (run cs).2).2

theorem digits_append_behind (cs : List Char) : digits cs ++ behindDigits cs = cs := by
  rw [digits, behindDigits, List.append_assoc, fraction_append, run_append]

theorem digits_append_narrower (h : Narrower separators rest (behindDigits cs)) :
    digits (digits cs ++ rest) = digits cs ∧ digitsKind (digits cs ++ rest) = digitsKind cs ∧
      behindDigits (digits cs ++ rest) = rest := by
  have hfraction := fraction_append_narrower h
  have hrun : Narrower separators ((fraction (run cs).2).1 ++ rest) (run cs).2 := by
    have hback := h.append (fraction (run cs).2).1
    rwa [behindDigits, fraction_append] at hback
  simp only [digits, digitsKind, behindDigits, List.append_assoc, run_append_narrower hrun,
    hfraction, and_self]

theorem decimal_of_absent (h : exponent (behindDigits cs) = .absent) :
    decimal first cs = marked (digitsKind cs) (first :: digits cs) (behindDigits cs) := by
  unfold decimal
  simp only [behindDigits] at h
  simp only [h]
  rfl

theorem decimal_of_present {more back : List Char}
    (h : exponent (behindDigits cs) = .present more back) :
    decimal first cs = marked .float (first :: digits cs ++ more) back := by
  unfold decimal
  simp only [behindDigits] at h
  simp only [h]
  rfl

theorem decimal_steady : Steady (decimal first) first := by
  intro cs hf
  have hcs := digits_append_behind cs
  cases he : exponent (behindDigits cs) with
  | absent =>
    obtain ⟨k, mark, back, hback, hmark⟩ :=
      marked_steady (digitsKind cs) (first :: digits cs) (behindDigits cs)
    refine ⟨.token k (first :: digits cs ++ mark), digits cs ++ mark, back,
      by rw [List.append_assoc, hback, hcs], fun rest hrest => ?_⟩
    have hrest := hrest.separated
    -- With its mark, or without one, the rest gives the digits no more than they had before.
    have hmore : Narrower separators (mark ++ rest) (behindDigits cs) := hback ▸ hrest.append mark
    obtain ⟨hdigits, hkind, hbehind⟩ := digits_append_narrower hmore
    have habsent : exponent (mark ++ rest) = .absent := by
      rw [exponent_eq_absent_iff] at he ⊢
      exact hmore.head (forall_separators.mpr (by decide)) he
    rw [List.append_assoc, decimal_of_absent first (by rw [hbehind, habsent]), hdigits, hkind,
      hbehind, hmark rest hrest]
    rfl
  | present more behind =>
    have hbehind := exponent_append he
    obtain ⟨k, mark, back, rfl, hmark⟩ := marked_steady .float (first :: digits cs ++ more) behind
    refine ⟨.token k (first :: digits cs ++ more ++ mark), digits cs ++ (more ++ mark), back,
      by rw [List.append_assoc, List.append_assoc, hbehind, hcs], fun rest hrest => ?_⟩
    have hrest := hrest.separated
    have hmore := hrest.append mark
    have hnarrower : Narrower separators (more ++ (mark ++ rest)) (behindDigits cs) :=
      hbehind ▸ hmore.append more
    obtain ⟨hdigits, -, hrest'⟩ := digits_append_narrower hnarrower
    have hpresent := exponent_append_narrower he hmore
    rw [List.append_assoc, List.append_assoc,
      decimal_of_present first (by rw [hrest', hpresent]), hdigits, hmark rest hrest]
    simp
  | broken cause taken back =>
    unfold decimal at hf
    simp only [behindDigits] at he
    simp [he, Piece.isFault] at hf

end Decimal

theorem number_steady {r : Radix} (hr : ∀ b ∈ separators, r.isDigit b = false) {letter : Char}
    (hf : (r.number letter cs).isFault = false) :
    ∃ lexeme back, lexeme ++ back = cs ∧ ∀ rest, Narrower separators rest back →
      r.number letter (lexeme ++ rest) =
        ⟨.token r.kind ('0' :: letter :: lexeme), '0' :: letter :: lexeme, rest⟩ := by
  have hin : ∀ b ∈ separators, (r.isDigit b || decide (b = '_')) = false := by
    intro b hb
    have hmark : b ≠ '_' := ne_of_mem_of_not_mem hb (by decide)
    simp [hr b hb, hmark]
  refine ⟨_, _, List.takeWhile_append_dropWhile (p := fun c => r.isDigit c || decide (c = '_')),
    fun rest hrest => ?_⟩
  unfold Radix.number at hf ⊢
  dsimp only at hf ⊢
  rw [hrest.takeWhile hin, hrest.dropWhile hin]
  split at hf
  · rename_i hany
    rw [if_pos hany]
  · cases hf

theorem isDigit_separator_of_letter {c : Char} {r : Radix} (h : Radix.ofLetter? c = some r) :
    (∀ b ∈ separators, r.isDigit b = false) := by
  have hr := List.mem_of_find?_eq_some h
  simp only [List.mem_cons, List.not_mem_nil, or_false] at hr
  rw [forall_separators]
  rcases hr with rfl | rfl | rfl <;> exact ⟨rfl, rfl⟩

/-- A number whose second character selects no base is decimal. -/
theorem scan_of_head {first : Char} (h : first = '0' → ∀ c ∈ cs.head?,
    Radix.ofLetter? c = none ∧ Unicode.isAlphabetic c = false) :
    scan first cs = decimal first cs := by
  unfold scan
  split
  · rfl
  · rename_i c rest
    split
    · rename_i hf
      obtain ⟨hr, hc⟩ := h hf c rfl
      simp only [hr, hc]
      rfl
    · rfl

theorem not_letter_of_separator : ∀ b ∈ separators,
    Radix.ofLetter? b = none ∧ Unicode.isAlphabetic b = false := by
  rw [forall_separators]
  decide

theorem scan_steady (first : Char) : Steady (scan first) first := by
  intro cs hf
  by_cases hplain : first = '0' → ∀ c ∈ cs.head?,
      Radix.ofLetter? c = none ∧ Unicode.isAlphabetic c = false
  · rw [scan_of_head hplain] at hf
    obtain ⟨reading, lexeme, back, rfl, hread⟩ := decimal_steady first cs hf
    refine ⟨reading, lexeme, back, rfl, fun rest hrest => ?_⟩
    rw [scan_of_head, hread rest hrest]
    exact fun hzero => (hrest.separated.append lexeme).head
      not_letter_of_separator (hplain hzero)
  · simp only [Classical.not_imp, Classical.not_forall] at hplain
    obtain ⟨rfl, c, hc, hspecial⟩ := hplain
    obtain ⟨cs, rfl⟩ := List.head?_eq_some_iff.mp hc
    unfold scan at hf ⊢
    simp only [if_true] at hf ⊢
    cases hr : Radix.ofLetter? c with
    | some r =>
      simp only [hr] at hf
      obtain ⟨lexeme, back, rfl, hread⟩ := number_steady (isDigit_separator_of_letter hr) hf
      refine ⟨.token r.kind ('0' :: c :: lexeme), c :: lexeme, back, rfl, fun rest hrest => ?_⟩
      simp only [List.cons_append, hr]
      exact hread rest hrest.separated
    | none =>
      have hc : Unicode.isAlphabetic c = true := by simpa [hr] using hspecial
      simp [hr, hc, Piece.isFault] at hf

end Numeral

/-! ## Words and marks -/

namespace TokenKind

/-- A mark is also found in front of another text that it begins, if no other mark that
begins the text did not begin the old one. -/
theorem mark?_of_imp {cs ds : List Char} {k : TokenKind} (h : mark? cs = some k)
    (hk : k.name.toList <+: ds) (hp : ∀ k' ∈ marks, k'.name.toList <+: ds → k'.name.toList <+: cs) :
    mark? ds = some k := by
  unfold mark? at h ⊢
  rw [List.find?_eq_some_iff_append] at h ⊢
  obtain ⟨hcs, front, back, hmarks, hfront⟩ := h
  refine ⟨List.isPrefixOf_iff_prefix.mpr hk, front, back, hmarks, fun k' hk' => ?_⟩
  have hmem : k' ∈ marks := hmarks ▸ List.mem_append_left _ hk'
  have hnot := hfront k' hk'
  simp only [Bool.not_eq_true', ← Bool.not_eq_true, List.isPrefixOf_iff_prefix] at hnot ⊢
  exact fun hds => hnot (hp k' hmem hds)

theorem separator_not_mem_of_mark {k : TokenKind} (h : k ∈ marks) :
    ∀ b ∈ separators, b ∉ k.name.toList := by
  rw [forall_separators]
  revert k
  decide

theorem mark?_append_narrower {rest back : List Char} {k : TokenKind}
    (h : mark? (k.name.toList ++ back) = some k) (hrest : Narrower separators rest back) :
    mark? (k.name.toList ++ rest) = some k :=
  mark?_of_imp h (List.prefix_append _ _) fun _ hk' =>
    hrest.append _ _ (separator_not_mem_of_mark hk')

end TokenKind

namespace Piece

theorem mark_steady (c : Char) : Steady (mark c) c := by
  intro cs hf
  unfold mark at hf ⊢
  cases hm : TokenKind.mark? (c :: cs) with
  | none => simp [hm, isFault] at hf
  | some k =>
    obtain ⟨back, hback⟩ := TokenKind.isPrefix_of_mark? hm
    cases hname : k.name.toList with
    | nil => exact absurd hname k.name_ne_nil
    | cons d lexeme =>
      rw [← hback] at hm
      rw [hname] at hback
      cases hback
      refine ⟨.token k (c :: lexeme), lexeme, back, rfl, fun rest hrest => ?_⟩
      have happend := TokenKind.mark?_append_narrower hm hrest.separated
      rw [hname, List.cons_append] at happend
      have hlength : k.name.length = (c :: lexeme).length := by
        rw [← hname, String.length_toList]
      simp only [happend, hname]
      rw [hlength, ← List.cons_append, List.drop_left]

theorem isWordPart_separator : ∀ b ∈ separators, isWordPart b = false :=
  forall_separators.mpr ⟨by decide, by decide⟩

theorem word_steady (c : Char) : Steady (word c) c := by
  intro cs _
  refine ⟨(word c cs).reading, cs.takeWhile isWordPart, cs.dropWhile isWordPart,
    List.takeWhile_append_dropWhile, fun rest hrest => ?_⟩
  have hrest := hrest.separated
  simp only [word, hrest.takeWhile isWordPart_separator, hrest.dropWhile isWordPart_separator]

theorem builtin_steady : Steady builtin '@' := by
  intro cs _
  refine ⟨(builtin cs).reading, cs.takeWhile isWordPart, cs.dropWhile isWordPart,
    List.takeWhile_append_dropWhile, fun rest hrest => ?_⟩
  have hrest := hrest.separated
  simp only [builtin, hrest.takeWhile isWordPart_separator, hrest.dropWhile isWordPart_separator]

/-! ## Comments -/

section Comments

variable {kind : TokenKind} {opening cs rest : List Char}

theorem isLineEnd_stop : ∀ b ∈ ['\n'], (!isLineEnd b) = false := by simp [isLineEnd]

/-- A comment to the end of the line ends at no other stop. -/
theorem stops_lineComment (hk : kind.isTrivia = true) :
    (lineComment kind opening cs).reading.stops = ['\n'] := by
  unfold lineComment
  dsimp only
  split
  · rfl
  · simp [Reading.stops, hk]

theorem lineComment_steady (kind : TokenKind) (hk : kind.isTrivia = true)
    (opening cs : List Char) :
    ∃ reading lexeme back, lexeme ++ back = cs ∧ ∀ rest, Narrower reading.stops rest back →
      lineComment kind opening (lexeme ++ rest) = ⟨reading, opening ++ lexeme, rest⟩ := by
  refine ⟨(lineComment kind opening cs).reading, cs.takeWhile (!isLineEnd ·),
    cs.dropWhile (!isLineEnd ·), List.takeWhile_append_dropWhile, fun rest hrest => ?_⟩
  rw [stops_lineComment hk] at hrest
  simp only [lineComment, hrest.takeWhile isLineEnd_stop, hrest.dropWhile isLineEnd_stop]

theorem numberSign_steady : Steady (lineComment .comment ['#']) '#' :=
  fun cs _ => lineComment_steady .comment rfl ['#'] cs

/-- A block comment is read again before any text, and one left open at the end. -/
theorem blockComment_steady (cs : List Char) :
    ∃ reading lexeme back, lexeme ++ back = cs ∧ ∀ rest, Narrower reading.stops rest back →
      blockComment (lexeme ++ rest) = ⟨reading, ['/', '*'] ++ lexeme, rest⟩ := by
  have hsource := Closing.ofComment.source_read cs
  cases hr : Closing.ofComment.read cs with
  | closed text back =>
    rw [hr] at hsource
    refine ⟨.trivia, text ++ ['*', '/'], back, hsource, fun rest _ => ?_⟩
    have hread := Closing.read_append (by decide) hr rest
    unfold blockComment
    rw [show text ++ ['*', '/'] ++ rest = text ++ Closing.ofComment.mark ++ rest from rfl, hread]
    rfl
  | cut taken back =>
    obtain ⟨rfl, rfl, -⟩ := Closing.cut_spec rfl rfl (by decide) hr
    refine ⟨.openComment, taken, [], List.append_nil _, fun rest hrest => ?_⟩
    obtain rfl := hrest.eq_nil
    rw [List.append_nil]
    simp [blockComment, hr]

theorem slash_of_head (h : ∀ c ∈ cs.head?, c ≠ '/' ∧ c ≠ '*') : slash cs = mark '/' cs := by
  unfold slash
  split <;> simp_all

theorem slash_of_comment (h : ∀ c ∈ cs.head?, c ≠ '/') :
    slash ('/' :: cs) = lineComment .comment ['/', '/'] cs := by
  unfold slash
  split <;> simp_all

theorem slash_steady : Steady slash '/' := by
  intro cs hf
  fun_cases slash cs with
  | case1 ds =>
    obtain ⟨reading, lexeme, back, rfl, hread⟩ :=
      lineComment_steady .docComment rfl ['/', '/', '/'] ds
    exact ⟨reading, '/' :: '/' :: lexeme, back, rfl, hread⟩
  | case2 ds hne =>
    have hhead : ∀ c ∈ ds.head?, c ≠ '/' := by
      rintro c hc rfl
      obtain ⟨more, rfl⟩ := List.head?_eq_some_iff.mp hc
      exact hne more rfl
    obtain ⟨reading, lexeme, back, rfl, hread⟩ :=
      lineComment_steady .comment rfl ['/', '/'] ds
    refine ⟨reading, '/' :: lexeme, back, rfl, fun rest hrest => ?_⟩
    have hrest' := hrest.separated.append lexeme
    have hslash := hrest'.head (forall_separators.mpr (by decide)) hhead
    rw [List.cons_append, slash_of_comment hslash, hread rest hrest]
    rfl
  | case3 ds =>
    obtain ⟨reading, lexeme, back, rfl, hread⟩ := blockComment_steady ds
    exact ⟨reading, '*' :: lexeme, back, rfl, hread⟩
  | case4 cs hslashes hslash hstar =>
    have hhead : ∀ c ∈ cs.head?, c ≠ '/' ∧ c ≠ '*' := by
      intro c hc
      obtain ⟨more, rfl⟩ := List.head?_eq_some_iff.mp hc
      exact ⟨fun h => hslash more (h ▸ rfl), fun h => hstar more (h ▸ rfl)⟩
    rw [slash_of_head hhead] at hf
    obtain ⟨reading, lexeme, back, rfl, hread⟩ := mark_steady '/' cs hf
    refine ⟨reading, lexeme, back, rfl, fun rest hrest => ?_⟩
    have hrest' := hrest.separated.append lexeme
    have hplain := hrest'.head (forall_separators.mpr (by decide)) hhead
    rw [slash_of_head hplain, hread rest hrest]

end Comments

/-- What a text begins with, unless it is a fault, is read again before a narrower text. -/
theorem first_steady (c : Char) : Steady (first c) c := by
  unfold first
  refine .of_ite (fun _ cs _ => ⟨.trivia, [], cs, rfl, fun _ _ => rfl⟩) fun _ => ?_
  refine .of_ite (fun _ => word_steady c) fun _ => ?_
  refine .of_ite (fun _ => Numeral.scan_steady c) fun _ => ?_
  refine .of_ite (fun h => h ▸ quotedString_steady) fun _ => ?_
  refine .of_ite (fun h => h ▸ rawString_steady) fun _ => ?_
  refine .of_ite (fun h => h ▸ rune_steady) fun _ => ?_
  refine .of_ite (fun h => h ▸ slash_steady) fun _ => ?_
  refine .of_ite (fun h => h ▸ numberSign_steady) fun _ => ?_
  exact .of_ite (fun h => h ▸ builtin_steady) fun _ => mark_steady c

theorem first_again {c : Char} {cs : List Char} (hf : (first c cs).isFault = false) :
    ∃ lexeme, (first c cs).lexeme = c :: lexeme ∧
      ∀ rest, Narrower (first c cs).reading.stops rest (first c cs).rest →
        first c (lexeme ++ rest) = ⟨(first c cs).reading, (first c cs).lexeme, rest⟩ := by
  obtain ⟨reading, lexeme, back, hcs, hread⟩ := first_steady c cs hf
  have hfirst := hread back (.refl _ _)
  rw [hcs] at hfirst
  rw [hfirst]
  exact ⟨lexeme, rfl, hread⟩

end Piece

/-! ## Gaps -/

/-- A text that is at its end or goes on with a separator. -/
def Gap (rest : List Char) : Prop := ∀ c ∈ rest.head?, c ∈ separators

namespace Gap

theorem nil : Gap [] := nofun

theorem cons {b : Char} (hb : b ∈ separators) (cs : List Char) : Gap (b :: cs) := by
  rintro c ⟨⟩
  exact hb

theorem narrower {rest : List Char} (h : Gap rest) (back : List Char) :
    Narrower separators rest back := by
  cases rest with
  | nil => exact .nil
  | cons b cs => exact .of_stop (h b rfl) cs

end Gap

namespace Piece

theorem isTrivia_of_lineComment {kind kind' : TokenKind} {opening cs text : List Char}
    (hk : kind.isTrivia = true)
    (h : (lineComment kind opening cs).reading = .token kind' text) : kind'.isTrivia = true := by
  unfold lineComment at h
  dsimp only at h
  split at h
  · cases h
  · cases h
    exact hk

/-- Every token but a comment is settled by its lexeme. -/
theorem first_settles {c : Char} {cs text : List Char} {kind : TokenKind}
    (h : (first c cs).reading = .token kind text) (hk : kind.isTrivia = false) :
    ∃ lexeme, (first c cs).lexeme = c :: lexeme ∧
      ∀ rest, Gap rest → first c (lexeme ++ rest) = ⟨.token kind text, c :: lexeme, rest⟩ := by
  obtain ⟨lexeme, hlexeme, hread⟩ := first_again (by rw [isFault, h])
  refine ⟨lexeme, hlexeme, fun rest hrest => ?_⟩
  have hstops : (first c cs).reading.stops = separators := by simp [h, Reading.stops, hk]
  rw [hread rest (hstops ▸ hrest.narrower _), h, hlexeme]

end Piece

end FrontEnd
