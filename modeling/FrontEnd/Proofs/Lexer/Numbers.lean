import FrontEnd.Proofs.Lexer.Starts

/-!
Numbers by their grammar. Each part of a number is the longest text of its shape that stands
there, the parts follow one another, and where a part that has to follow is missing there is a
fault. Every token that starts with a digit is what the grammar tells, and it tells one thing.
-/

namespace FrontEnd

/-- `front` is the longest text with the property that `text` begins with, and `rest` follows. -/
structure Longest (P : List Char → Prop) (text front rest : List Char) : Prop where
  append : front ++ rest = text
  holds : P front
  longest : ∀ other, P other → other <+: text → other.length ≤ front.length

/-- The longest such text, or nothing if the text begins with none. -/
inductive Optional (P : List Char → Prop) (text : List Char) : List Char → List Char → Prop where
  | present {front rest : List Char} (h : Longest P text front rest) : Optional P text front rest
  | absent (h : ∀ other, P other → ¬other <+: text) : Optional P text [] text

section Matching

variable {P : List Char → Prop} {text front rest front' rest' : List Char}

end Matching

namespace Numeral

/-- Digits, with single underscores between them. -/
inductive Digits : List Char → Prop where
  | one {d : Char} (h : d.isDigit = true) : Digits [d]
  | digit {d : Char} {ds : List Char} (h : d.isDigit = true) (hs : Digits ds) : Digits (d :: ds)
  | underscore {d : Char} {ds : List Char} (h : d.isDigit = true) (hs : Digits ds) :
    Digits (d :: '_' :: ds)

/-- A point and digits. -/
def Fraction (cs : List Char) : Prop := ∃ ds, Digits ds ∧ cs = '.' :: ds

/-- The number `text`, of the kind, ends before the given text, or it is imaginary. -/
inductive Ends (kind : TokenKind) (text : List Char) : List Char → Lead → Prop where
  | imaginary {j : Char} {rest : List Char} (hj : j = 'j' ∨ j = 'J') :
    Ends kind text (j :: rest) (.token .imaginary (text ++ [j]) rest)
  | plain {rest : List Char} (hj : ∀ j ∈ rest.head?, j ≠ 'j' ∧ j ≠ 'J') :
    Ends kind text rest (.token kind text rest)

/-- Behind `text`, its whole part and its fraction, the number goes on with the given text. -/
inductive Continues (kind : TokenKind) (text : List Char) : List Char → Lead → Prop where
  | plain {rest : List Char} {lead : Lead} (he : ∀ e ∈ rest.head?, e ≠ 'e' ∧ e ≠ 'E')
    (h : Ends kind text rest lead) : Continues kind text rest lead
  | exponent {e s : Char} {cs digits rest : List Char} {lead : Lead} (he : e = 'e' ∨ e = 'E')
    (hs : s = '+' ∨ s = '-') (hd : Longest Digits cs digits rest)
    (h : Ends .float (text ++ e :: s :: digits) rest lead) :
    Continues kind text (e :: s :: cs) lead
  | missingSign {e : Char} {cs : List Char} (he : e = 'e' ∨ e = 'E')
    (hs : ∀ s ∈ cs.head?, s ≠ '+' ∧ s ≠ '-') :
    Continues kind text (e :: cs) (.fault (.missingExponentSign cs.head?))
  | missingDigits {e s : Char} {cs : List Char} (he : e = 'e' ∨ e = 'E') (hs : s = '+' ∨ s = '-')
    (hd : ∀ digits, Digits digits → ¬digits <+: cs) :
    Continues kind text (e :: s :: cs) (.fault (.missingExponentDigits cs.head?))

/-- The letter behind `0` selects a base with these digits. -/
inductive Selects : Char → List Char → TokenKind → (lead expected : String) → Prop where
  | hexadecimal {letter : Char} (h : letter = 'x' ∨ letter = 'X') :
    Selects letter "0123456789abcdefABCDEF".toList .hexInteger "0x"
      "hexadecimal digits [0-9A-Fa-f]"
  | binary {letter : Char} (h : letter = 'b' ∨ letter = 'B') :
    Selects letter "01".toList .binaryInteger "0b" "binary digits [0-1]"
  | octal {letter : Char} (h : letter = 'o' ∨ letter = 'O') :
    Selects letter "01234567".toList .octalInteger "0o" "octal digits [0-7]"

/-- What a text begins with whose first character is a digit. -/
inductive Number : List Char → Lead → Prop where
  | based {letter : Char} {base run rest : List Char} {kind : TokenKind} {lead expected : String}
    (hl : Selects letter base kind lead expected) (hrun : ∀ d ∈ run, d ∈ base ∨ d = '_')
    (hrest : ∀ d ∈ rest.head?, d ∉ base ∧ d ≠ '_') (hd : ∃ d ∈ run, d ∈ base) :
    Number ('0' :: letter :: (run ++ rest)) (.token kind ('0' :: letter :: run) rest)
  | missingDigits {letter : Char} {base run rest : List Char} {kind : TokenKind}
    {lead expected : String} (hl : Selects letter base kind lead expected)
    (hrun : ∀ d ∈ run, d = '_') (hrest : ∀ d ∈ rest.head?, d ∉ base ∧ d ≠ '_')
    (hd : ∀ d ∈ run, d ∉ base) :
    Number ('0' :: letter :: (run ++ rest)) (.fault (.missingDigits lead expected))
  | unsupported {letter : Char} {cs : List Char} (ha : Unicode.isAlphabetic letter = true)
    (hl : letter ∉ "xXbBoO".toList) :
    Number ('0' :: letter :: cs) (.fault (.unsupportedRadix letter))
  | decimal {text whole part behind rest : List Char} {lead : Lead}
    (hz : ∀ letter cs, text = '0' :: letter :: cs → Unicode.isAlphabetic letter = false)
    (hw : Longest Digits text whole behind) (hp : Optional Fraction behind part rest)
    (h : Continues (if part = [] then .decimalInteger else .float) (whole ++ part) rest lead) :
    Number text lead

/-! ## Parts -/

variable {c d : Char} {cs ds text : List Char} {kind : TokenKind} {lead : Lead}

theorem Digits.head (h : Digits ds) : ∃ d cs, ds = d :: cs ∧ d.isDigit = true := by
  cases h with
  | one h | digit h | underscore h => exact ⟨_, _, rfl, h⟩

/-- No digits stand where no run starts. -/
theorem Digits.not_prefix (h : startsRun cs = false) : ∀ ds, Digits ds → ¬ds <+: cs := by
  rintro ds hds ⟨rest, rfl⟩
  obtain ⟨d, es, rfl, hd⟩ := hds.head
  rw [List.cons_append, startsRun_digit hd] at h
  cases h

theorem digits_run (hd : d.isDigit = true) (cs : List Char) : Digits (d :: (run cs).1) := by
  fun_induction run cs generalizing d with
  | case1 => exact .one hd
  | case2 c cs hc ih => exact .digit hd (ih hc)
  | case3 => exact .one hd
  | case4 e es he hu ih => exact .underscore hd (ih he)
  | case5 => exact .one hd
  | case6 => exact .one hd

theorem Digits.length_le (h : Digits ds) (hbegins : ds <+: d :: cs) :
    ds.length ≤ (d :: (run cs).1).length := by
  induction h generalizing d cs with
  | one => simp
  | digit _ hs ih =>
    obtain ⟨-, htail⟩ := List.cons_prefix_cons.mp hbegins
    obtain ⟨e, es, rfl, he⟩ := hs.head
    obtain ⟨rest, rfl⟩ := htail
    have hle : (e :: es).length ≤ (e :: (run (es ++ rest)).1).length := ih ⟨rest, rfl⟩
    rw [List.cons_append, run_digit he]
    exact Nat.succ_le_succ hle
  | underscore _ hs ih =>
    obtain ⟨-, htail⟩ := List.cons_prefix_cons.mp hbegins
    obtain ⟨e, es, rfl, he⟩ := hs.head
    obtain ⟨rest, rfl⟩ := htail
    have hle : (e :: es).length ≤ (e :: (run (es ++ rest)).1).length := ih ⟨rest, rfl⟩
    rw [List.cons_append, List.cons_append, run_underscore he]
    exact Nat.succ_le_succ (Nat.succ_le_succ hle)

/-- A run is the longest one. -/
theorem longest_run (hd : d.isDigit = true) (cs : List Char) :
    Longest Digits (d :: cs) (d :: (run cs).1) (run cs).2 where
  append := by rw [List.cons_append, run_append]
  holds := digits_run hd cs
  longest _ h hbegins := h.length_le hbegins

theorem longest_of_startsRun (h : startsRun cs = true) :
    Longest Digits cs (run cs).1 (run cs).2 := by
  obtain ⟨d, ds, hd, rfl⟩ := startsRun_cases h
  rw [run_digit hd]
  exact longest_run hd ds

theorem fraction_optional (cs : List Char) :
    Optional Fraction cs (fraction cs).1 (fraction cs).2 := by
  fun_cases fraction cs with
  | case1 ds h =>
    have hrun := longest_of_startsRun h
    refine .present ⟨by rw [List.cons_append, hrun.append], ⟨_, hrun.holds, rfl⟩, ?_⟩
    rintro other ⟨es, hes, rfl⟩ hbegins
    exact Nat.succ_le_succ (hrun.longest es hes (List.cons_prefix_cons.mp hbegins).2)
  | case2 ds h =>
    refine .absent ?_
    rintro other ⟨es, hes, rfl⟩ hbegins
    exact Digits.not_prefix (by simpa using h) es hes (List.cons_prefix_cons.mp hbegins).2
  | case3 cs hne =>
    refine .absent ?_
    rintro other ⟨es, hes, rfl⟩ ⟨rest, rfl⟩
    exact hne _ rfl

/-! ## What the parts are read as -/

theorem ends_iff : Ends kind text cs lead ↔ (marked kind text cs).lead? = some lead := by
  constructor
  · rintro (⟨hj⟩ | ⟨hj⟩)
    · simp [marked, hj, Piece.lead?]
    · cases cs with
      | nil => rfl
      | cons j rest => simp [marked, hj j rfl, Piece.lead?]
  · fun_cases marked kind text cs with
    | case1 =>
      intro h
      cases h
      exact .plain (by simp)
    | case2 j rest hj =>
      intro h
      cases h
      exact .imaginary (by simpa using hj)
    | case3 j rest hj =>
      intro h
      cases h
      exact .plain (by simpa using hj)

/-- A number that goes on behind its whole part and its fraction. -/
def continued (kind : TokenKind) (text cs : List Char) : Piece :=
  match exponent cs with
  | .absent => marked kind text cs
  | .present more rest => marked .float (text ++ more) rest
  | .broken cause taken rest => ⟨.fault cause, text ++ taken, rest⟩

theorem continues_of_lead (h : (continued kind text cs).lead? = some lead) :
    Continues kind text cs lead := by
  revert h
  unfold continued
  fun_cases exponent cs with
  | case1 => exact fun h => .plain (by simp) (ends_iff.mpr h)
  | case2 e he =>
    intro h
    cases h
    exact .missingSign (by simpa using he) (by simp)
  | case3 e he s ds hs hd =>
    exact fun h => .exponent (by simpa using he) (by simpa using hs) (longest_of_startsRun hd)
      (ends_iff.mpr h)
  | case4 e he s ds hs hd =>
    intro h
    cases h
    exact .missingDigits (by simpa using he) (by simpa using hs)
      (Digits.not_prefix (by simpa using hd))
  | case5 e he s ds hs =>
    intro h
    cases h
    exact .missingSign (by simpa using he) (by simpa using hs)
  | case6 e ds he => exact fun h => .plain (by simpa using he) (ends_iff.mpr h)

/-! ## Bases -/

theorem decimal_eq (first : Char) (cs : List Char) : decimal first cs =
    continued (if (fraction (run cs).2).1 = [] then .decimalInteger else .float)
      (first :: (run cs).1 ++ (fraction (run cs).2).1) (fraction (run cs).2).2 := by
  cases h : exponent (fraction (run cs).2).2 <;> simp [decimal, continued, h]

/-- A test of ASCII characters alone tells the same as a list if it does so of those. -/
theorem eq_contains_of_ascii {p : Char → Bool} {base : List Char}
    (hp : ∀ c, p c = true → c.toNat < 128) (hbase : base.all (·.toNat < 128) = true)
    (h : ∀ n < 128, p (.ofNat n) = base.contains (.ofNat n)) : p = base.contains := by
  funext c
  by_cases hc : c.toNat < 128
  · rw [← Char.ofNat_toNat c]
    exact h _ hc
  · have hall : ∀ c ∈ base, c.toNat < 128 := by simpa using hbase
    rw [Bool.eq_false_iff.mpr fun ht => hc (hp c ht),
      Bool.eq_false_iff.mpr fun ht => hc (hall c (List.contains_iff_mem.mp ht))]

theorem toNat_lt {d : Char} (h : c ≤ d) (hd : d.toNat < 128) : c.toNat < 128 :=
  Nat.lt_of_le_of_lt h hd

theorem isDigit_hexadecimal :
    Radix.hexadecimal.isDigit = "0123456789abcdefABCDEF".toList.contains := by
  refine eq_contains_of_ascii (fun c h => ?_) (by decide) (by decide +kernel)
  simp only [Radix.hexadecimal, Char.isDigit, Bool.or_eq_true, Bool.and_eq_true,
    decide_eq_true_eq] at h
  rcases h with (⟨-, h⟩ | ⟨-, h⟩) | ⟨-, h⟩ <;> exact toNat_lt h (by decide)

theorem isDigit_binary : Radix.binary.isDigit = "01".toList.contains := by
  refine eq_contains_of_ascii (fun c h => ?_) (by decide) (by decide +kernel)
  simp only [Radix.binary, Bool.or_eq_true, decide_eq_true_eq] at h
  rcases h with rfl | rfl <;> decide

theorem isDigit_octal : Radix.octal.isDigit = "01234567".toList.contains := by
  refine eq_contains_of_ascii (fun c h => ?_) (by decide) (by decide +kernel)
  simp only [Radix.octal, Bool.and_eq_true, decide_eq_true_eq] at h
  exact toNat_lt h.2 (by decide)

theorem selects_of_radix {letter : Char} {r : Radix} (h : Radix.ofLetter? letter = some r) :
    ∃ base, Selects letter base r.kind r.lead r.expected ∧ r.isDigit = base.contains := by
  have hmem := List.mem_of_find?_eq_some h
  have hl := List.find?_some h
  simp only [List.mem_cons, List.not_mem_nil, or_false] at hmem
  rcases hmem with rfl | rfl | rfl
  · exact ⟨_, .hexadecimal (by simpa [Radix.hexadecimal] using hl), isDigit_hexadecimal⟩
  · exact ⟨_, .binary (by simpa [Radix.binary] using hl), isDigit_binary⟩
  · exact ⟨_, .octal (by simpa [Radix.octal] using hl), isDigit_octal⟩

theorem ofLetter?_eq_none_iff {letter : Char} :
    Radix.ofLetter? letter = none ↔ letter ∉ "xXbBoO".toList := by
  simp [Radix.ofLetter?, Radix.hexadecimal, Radix.binary, Radix.octal, and_assoc]

/-- A text is taken up to the first character that fails the test. -/
theorem span_of_stop {p : Char → Bool} {front rest : List Char} (hfront : ∀ d ∈ front, p d = true)
    (hrest : ∀ d ∈ rest.head?, p d = false) :
    (front ++ rest).takeWhile p = front ∧ (front ++ rest).dropWhile p = rest := by
  rw [List.takeWhile_append_of_pos hfront, List.dropWhile_append_of_pos hfront]
  cases rest with
  | nil => exact ⟨List.append_nil _, rfl⟩
  | cons d rest =>
    have hd : ¬p d = true := by simp [hrest d rfl]
    rw [List.takeWhile_cons_of_neg hd, List.dropWhile_cons_of_neg hd]
    exact ⟨List.append_nil _, rfl⟩

section Radix

/-- A digit of the base, or an underscore. -/
def inRun (base : List Char) (c : Char) : Bool := base.contains c || c = '_'

variable {r : Radix} {letter : Char} {base front rest : List Char}

theorem lead_number (hr : r.isDigit = base.contains) (hfront : ∀ d ∈ front, d ∈ base ∨ d = '_')
    (hrest : ∀ d ∈ rest.head?, d ∉ base ∧ d ≠ '_') :
    (r.number letter (front ++ rest)).lead? = some (if front.any base.contains
      then .token r.kind ('0' :: letter :: front) rest
      else .fault (.missingDigits r.lead r.expected)) := by
  have hin : ∀ d ∈ front, inRun base d = true := by simpa [inRun] using hfront
  have hout : ∀ d ∈ rest.head?, inRun base d = false := by simpa [inRun] using hrest
  obtain ⟨htake, hdrop⟩ := span_of_stop hin hout
  have hrun : (fun c => r.isDigit c || decide (c = '_')) = inRun base := by
    rw [hr]
    rfl
  simp only [Radix.number, hrun, htake, hdrop]
  rw [hr]
  split <;> rfl

/-- A text behind a letter that selects a base is a run in the base and what follows it. -/
theorem exists_run (base cs : List Char) : ∃ front rest, front ++ rest = cs ∧
    (∀ d ∈ front, d ∈ base ∨ d = '_') ∧ ∀ d ∈ rest.head?, d ∉ base ∧ d ≠ '_' := by
  refine ⟨cs.takeWhile (inRun base), cs.dropWhile (inRun base), List.takeWhile_append_dropWhile,
    ?_, ?_⟩
  · intro d hd
    simpa [inRun] using List.all_eq_true.mp List.all_takeWhile d hd
  · intro d hd
    have hnot := List.head?_dropWhile_not (inRun base) cs
    rw [Option.mem_def.mp hd] at hnot
    simpa [inRun] using hnot

end Radix

theorem decimal_of_lead (hc : c.isDigit = true)
    (hz : ∀ letter ds, c :: cs = '0' :: letter :: ds → Unicode.isAlphabetic letter = false)
    (h : (decimal c cs).lead? = some lead) : Number (c :: cs) lead := by
  rw [decimal_eq] at h
  exact .decimal hz (longest_run hc cs) (fraction_optional _) (continues_of_lead h)

theorem number_of_lead (hc : c.isDigit = true) (h : (scan c cs).lead? = some lead) :
    Number (c :: cs) lead := by
  revert h
  fun_cases scan c cs with
  | case1 => exact decimal_of_lead hc (by simp)
  | case2 letter cs hzero r hr =>
    subst hzero
    intro h
    obtain ⟨base, hl, hbase⟩ := selects_of_radix hr
    obtain ⟨front, rest, rfl, hfront, hrest⟩ := exists_run base cs
    rw [lead_number hbase hfront hrest] at h
    split at h
    · rename_i hd
      cases h
      exact .based hl hfront hrest (by simpa using hd)
    · rename_i hd
      have hnone : ∀ d ∈ front, d ∉ base := by simpa using hd
      cases h
      exact .missingDigits hl (fun d h => (hfront d h).resolve_left (hnone d h)) hrest hnone
  | case3 letter cs hzero hr ha =>
    subst hzero
    intro h
    cases h
    exact .unsupported ha (ofLetter?_eq_none_iff.mp hr)
  | case4 letter cs hzero hr ha => exact decimal_of_lead hc (by simpa using fun _ => ha)
  | case5 letter cs hne => exact decimal_of_lead hc (by simp [hne])

end Numeral

end FrontEnd
