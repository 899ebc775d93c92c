import FrontEnd.Proofs.Parser.Refusals.Productions

/-!
What is refused in parsing a source. Parsing that is rejected for its nesting was refused one
rule, where the cursor then stands. Either something begins there that the rule would read, or
the source is at fault there anyway, or an expression is left out there that need not be written.
-/

namespace FrontEnd

/-- No other fault has the message of a source that is nested too deeply. -/
theorem Cause.eq_of_message {cause : Cause} {limit : Nat}
    (h : cause.message = (Cause.nestedTooDeeply limit).message) :
    ∃ n, cause = .nestedTooDeeply n := by
  have hfront {f : String} {c : Char} (hc : f.toList.head? = some c) (back : String) :
      (f ++ back).toList.head? = some c := by
    rw [String.toList_append, List.head?_append, hc]
    rfl
  have hnested : (Cause.nestedTooDeeply limit).message.toList.head? = some 'n' :=
    hfront (hfront (f := "nested too deeply (maximum ") (by decide) _) _
  rw [← h] at hnested
  cases cause with
  | expected what found =>
    have hexpected : (Cause.expected what found).message.toList.head? = some 'e' :=
      hfront (hfront (hfront (hfront (f := "expected ") (by decide) _) _) _) _
    rw [hexpected] at hnested
    cases hnested
  | mutableConstant => exact absurd hnested (by decide)
  | nestedTooDeeply n => exact ⟨n, rfl⟩

theorem Refusal.begins_of_within {symbols : Symbols} {high : Nat} {x : Refusal}
    (hhigh : x.state.inner.depth + budget symbols ≤ high) (h : x.BeginsWithin symbols high) :
    x.Begins symbols := by
  intro v t hread
  rw [← Rule.exec_eq_unguarded x.rule hhigh] at hread
  exact h v t hread

namespace Cursor

/-- Where a rule is refused parsing is rejected for its nesting. -/
theorem parseWithin_of_refusal {limit : Nat} {c : Cursor} {x : Refusal}
    (hi : c.stream.illegal? = none) (h : c.refusal? limit = some x) :
    c.parseWithin limit =
      (.error ⟨.structural, (Cause.nestedTooDeeply limit).message,
        (c.tokenAt x.state.position).1.location⟩, ⟨c.stream, x.state.position, c.depth⟩) :=
  parseWithin_eq_of_failed hi (Rule.exec_of_refusal .unit h)

/-- Parsing that is rejected for its nesting was refused a rule where the cursor stands. Unless
something begins there, the source is refused at that token without a guard too, or an
expression is left out there. -/
theorem parseWithin_refuses {limit : Nat} {c stopped : Cursor} {location : Location}
    (h : c.parseWithin limit =
      (.error ⟨.structural, (Cause.nestedTooDeeply limit).message, location⟩, stopped)) :
    ∃ x, c.refusal? limit = some x ∧ stopped = ⟨c.stream, x.state.position, c.depth⟩ ∧
      (x.Begins c.stream.symbols ∨
        (∃ what found, c.parseUnguarded =
          (.error ⟨.structural, (Cause.expected what found).message, location⟩, stopped)) ∨
        c.stream.symbols.LeavesOut x.state.position) := by
  obtain ⟨hillegal, cause, hmessage, heval⟩ := failed_of_parseWithin h rfl
  obtain ⟨n, rfl⟩ := Cause.eq_of_message hmessage.symm
  have hspared (r : Rule) := r.spared c.stream.symbols limit
  obtain ⟨x, hx⟩ := Rule.exists_refusal hspared .unit heval
  have hrefused : Rule.eval c.stream.symbols limit .unit ⟨c.position, c.depth⟩ =
      .failed (.nestedTooDeeply limit) ⟨x.state.position, c.depth⟩ := Rule.exec_of_refusal .unit hx
  rw [parseWithin_eq_of_failed hillegal hrefused] at h
  cases h
  refine ⟨x, hx, rfl, ?_⟩
  -- a limit that neither the refused rule nor the whole source comes to
  obtain ⟨high, hlimit, hrule, henough⟩ : ∃ high, limit ≤ high ∧
      x.state.inner.depth + budget c.stream.symbols ≤ high ∧ c.enoughLevels ≤ high :=
    ⟨limit + (x.state.inner.depth + budget c.stream.symbols) + c.enoughLevels, by omega, by omega,
      by omega⟩
  have hdepth : x.state.depth < high := by
    have hinner : x.state.inner.depth = x.state.depth + 1 := rfl
    omega
  rcases Rule.goesOn hlimit hspared _ .unit c.state x hdepth hx with
    hbegins | hout | ⟨what, found, hfailed⟩ | ⟨_, hlost, -⟩
  · exact .inl (x.begins_of_within hrule hbegins)
  · exact .inr (.inr hout)
  · refine .inr (.inl ⟨what, found, ?_⟩)
    rw [← parseWithin_eq_unguarded henough]
    exact parseWithin_eq_of_failed hillegal hfailed
  · cases hlost.1

/-- With two levels a name in a block is too deep. -/
theorem parseWithin_refuses_of_name :
    let c := Cursor.start (lex "\x7bx;\x7d" "a.hz")
    ∃ location stopped, c.parseWithin 2 =
        (.error ⟨.structural, (Cause.nestedTooDeeply 2).message, location⟩, stopped) ∧
      ∃ x, c.refusal? 2 = some x ∧ stopped = ⟨c.stream, x.state.position, c.depth⟩ ∧
        (x.Begins c.stream.symbols ∨
          (∃ what found, c.parseUnguarded =
            (.error ⟨.structural, (Cause.expected what found).message, location⟩, stopped)) ∨
          c.stream.symbols.LeavesOut x.state.position) := by
  intro c
  have hi : c.stream.illegal? = none := by decide +kernel
  have hx : c.refusal? 2 = some ⟨.expression, ⟨1, 2⟩⟩ := by decide +kernel
  generalize c = c at hi hx ⊢
  have hparse := parseWithin_of_refusal hi hx
  exact ⟨_, _, hparse, parseWithin_refuses hparse⟩

/-- A value that `return` does not have is refused as too deep, where the `return` itself is not:
the rule that was refused would have found nothing, and without the guard the source has a tree. -/
theorem parse_refused_of_return :
    let source := String.ofList
      (List.replicate 63 '\x7b' ++ "return;".toList ++ List.replicate 63 '\x7d')
    let c := Cursor.start (lex source "a.hz")
    let x : Refusal := ⟨.expression, ⟨64, 64⟩⟩
    c.parse = (.error ⟨.structural, (Cause.nestedTooDeeply nestingLimit).message,
        ⟨1, 70, "a.hz"⟩⟩, ⟨c.stream, 64, c.depth⟩) ∧
      c.refusal? nestingLimit = some x ∧ ¬x.Begins c.stream.symbols ∧
      c.parseUnguarded.1.isOk = true := by
  intro source
  -- told apart from parsing, so that the source is read only once
  have hstream : lex source "a.hz" = ⟨"a.hz",
      (List.range 63).map (fun i => ⟨.leftBrace, "\x7b", i, ⟨1, .ofNat (i + 1), "a.hz"⟩⟩) ++
        [⟨.kwReturn, "return", 63, ⟨1, 64, "a.hz"⟩⟩, ⟨.semicolon, ";", 69, ⟨1, 70, "a.hz"⟩⟩] ++
        (List.range 63).map (fun i => ⟨.rightBrace, "\x7d", i + 70, ⟨1, .ofNat (i + 71), "a.hz"⟩⟩),
      (133, ⟨1, 134, "a.hz"⟩), []⟩ := by decide +kernel
  rw [hstream]
  intro c x
  have hi : c.stream.illegal? = none := by decide +kernel
  have hx : c.refusal? nestingLimit = some x := by decide +kernel
  have hlocation : (c.tokenAt 64).1.location = ⟨1, 70, "a.hz"⟩ := by decide +kernel
  have hnone : ((Rule.execUnguarded c.stream.symbols (budget c.stream.symbols) .expression
      x.state.inner).andThen fun v t => .read v.isNone t) = .read true x.state.inner := by
    decide +kernel
  have hok : c.parseUnguarded.1.isOk = true := by decide +kernel
  generalize c = c at hi hx hlocation hnone hok ⊢
  refine ⟨?_, hx, fun hbegins => ?_, hok⟩
  · rw [← hlocation]
    exact parseWithin_of_refusal hi hx
  · cases ho : Rule.execUnguarded c.stream.symbols (budget c.stream.symbols) .expression
      x.state.inner with
    | read v t =>
      rw [ho] at hnone
      have hv : v = none := Option.isNone_iff_eq_none.mp (Outcome.read.inj hnone).1
      exact hbegins v t ho hv
    | failed | exhausted =>
      rw [ho] at hnone
      cases hnone

end Cursor

end FrontEnd
