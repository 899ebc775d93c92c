import FrontEnd.CommandLine.Respond
import FrontEnd.Proofs.Parser.Faults

/-!
Inputs of one command line do not depend on each other. What is written for several of them
is put together from what is written for each of them alone. Log lines, which a higher
verbosity asks for, are not part of it.
-/

namespace FrontEnd.CommandLine

/-- The response to reports on several inputs. -/
def Response.ofReports (reports : List Report) : Response :=
  let failed := reports.countP fun report => !report.succeeded
  ⟨if failed = 0 then 0 else 1, String.join (reports.map (·.stdout)),
    String.join (reports.map (·.stderr)) ++
      if failed = 0 then "" else line s!"{failed} of {reports.length} input(s) failed"⟩

theorem Response.ofReports_singleton (report : Report) :
    ofReports [report] = ⟨if report.succeeded then 0 else 1, report.stdout,
      report.stderr ++ if report.succeeded then "" else line "1 of 1 input(s) failed"⟩ := by
  cases hs : report.succeeded <;> simp [ofReports, hs, String.join]
  rfl

namespace Request

/-- The request for one file alone. -/
def alone (r : Request) (emit : Emit) (file : String) : Request :=
  ⟨[file], emit, r.format, r.verbosity⟩

section Reports

variable (r : Request) (source : String → Except ReadError String) (file : String)

/-- Unless the standard input is asked for twice, there is a report on each file. -/
theorem respond_of_count (h : r.files.count "-" ≤ 1) :
    r.respond source = .ofReports (r.files.map fun file => r.report file (source file)) := by
  have honce : r.repeatsInput = false := by
    rw [repeatsInput, decide_eq_false_iff_not, Nat.not_lt]
    exact h
  unfold respond Response.ofReports
  simp only [honce, Bool.false_eq_true, if_false, List.length_map]
  split
  · rw [String.append_empty]
  · rfl

theorem respond_alone (emit : Emit) :
    (r.alone emit file).respond source =
      .ofReports [(r.alone emit file).report file (source file)] :=
  respond_of_count _ source List.count_le_length

/-- The report on a file does not depend on the other files. -/
theorem report_alone (content : Except ReadError String) :
    (r.alone r.emit file).report file content = r.report file content := by
  cases content with
  | error e => rfl
  | ok text => simp only [report, stage, alone]

theorem stage_of_fault {s : TokenStream} {fault : Fault}
    (h : ((r.alone .ast file).stage s).2 = some fault) : ((r.alone .ast file).stage s).1 = "" := by
  unfold stage at h ⊢
  dsimp only [alone] at h ⊢
  cases hparse : FrontEnd.parse s with
  | ok tree =>
    rw [hparse] at h
    cases h
  | error fault => rfl

/-- A fault of the tokens ends both stages. -/
theorem stage_of_illegal {s : TokenStream} {t : Token} (h : s.illegal? = some t) :
    (r.alone .ast file).stage s = ("", some ⟨.lexical, t.text, t.location⟩) ∧
      ((r.alone .tokens file).stage s).2 = some ⟨.lexical, t.text, t.location⟩ := by
  have hparse : FrontEnd.parse s = .error ⟨.lexical, t.text, t.location⟩ :=
    congrArg Prod.fst (Cursor.parseWithin_of_illegal (c := Cursor.start s) h)
  unfold stage
  dsimp only [alone]
  rw [hparse, h]
  exact ⟨rfl, rfl⟩

/-- The fault that a report on a text tells of. -/
theorem fault_of_failure {text : String} (h : (r.report file (.ok text)).succeeded = false) :
    ∃ fault, (r.stage (lex text (displayName file))).2 = some fault := by
  simp only [report] at h
  rwa [Option.isNone_eq_false_iff, Option.isSome_iff_exists] at h

theorem stdout_of_failure (content : Except ReadError String)
    (h : ((r.alone .ast file).report file content).succeeded = false) :
    ((r.alone .ast file).report file content).stdout = "" := by
  cases content with
  | error e => rfl
  | ok text =>
    obtain ⟨fault, hfault⟩ := fault_of_failure _ file h
    simp only [report]
    exact r.stage_of_fault file hfault

/-- A file that fails at the stage of tokens fails alike at the stage of the tree. -/
theorem report_of_lexical (content : Except ReadError String)
    (h : ((r.alone .tokens file).report file content).succeeded = false) :
    ((r.alone .ast file).report file content).succeeded = false ∧
      ((r.alone .ast file).report file content).stderr =
        ((r.alone .tokens file).report file content).stderr := by
  cases content with
  | error e => exact ⟨rfl, rfl⟩
  | ok text =>
    obtain ⟨fault, hfault⟩ := fault_of_failure _ file h
    simp only [stage, alone] at hfault
    obtain ⟨t, ht, -⟩ := Option.map_eq_some_iff.mp hfault
    obtain ⟨htree, htokens⟩ := r.stage_of_illegal file ht
    unfold report
    dsimp only
    rw [htree, htokens]
    exact ⟨rfl, rfl⟩

theorem exitCode_alone (emit : Emit) :
    ((r.alone emit file).respond source).exitCode =
      if ((r.alone emit file).report file (source file)).succeeded then 0 else 1 := by
  rw [respond_alone, Response.ofReports_singleton]

theorem fails_alone_iff (emit : Emit) :
    ((r.alone emit file).respond source).exitCode = 1 ↔
      ((r.alone emit file).report file (source file)).succeeded = false := by
  rw [exitCode_alone]
  cases ((r.alone emit file).report file (source file)).succeeded <;> simp

/-- The files that fail alone are those whose reports tell of a failure. -/
theorem countP_fails_alone :
    (r.files.countP fun file => ((r.alone r.emit file).respond source).exitCode == 1) =
      (r.files.map fun file => r.report file (source file)).countP (!·.succeeded) := by
  rw [List.countP_map]
  refine List.countP_congr fun file _ => ?_
  rw [beq_iff_eq, fails_alone_iff, report_alone]
  simp

theorem respond_of_lexical (h : ((r.alone .tokens file).respond source).exitCode = 1) :
    ((r.alone .ast file).respond source).exitCode = 1 ∧
      ((r.alone .ast file).respond source).stderr =
        ((r.alone .tokens file).respond source).stderr := by
  rw [fails_alone_iff] at h
  obtain ⟨hast, hstderr⟩ := r.report_of_lexical file (source file) h
  refine ⟨(r.fails_alone_iff source file .ast).mpr hast, ?_⟩
  simp only [respond_alone, Response.ofReports_singleton, h, hast, hstderr]

theorem exitCode_of_tree (h : ((r.alone .ast file).respond source).exitCode = 0) :
    ((r.alone .tokens file).respond source).exitCode = 0 := by
  cases hs : ((r.alone .tokens file).report file (source file)).succeeded with
  | true => rw [exitCode_alone, hs, if_pos rfl]
  | false =>
    have hfails := (r.respond_of_lexical source file ((r.fails_alone_iff ..).mpr hs)).1
    rw [h] at hfails
    cases hfails

theorem respond_of_repeats (h : 1 < r.files.count "-") :
    (Invocation.run r).inputs = [] ∧ (r.respond source).stdout = "" ∧
      (r.respond source).exitCode = 1 := by
  have hrepeats : r.repeatsInput = true := decide_eq_true h
  unfold Invocation.inputs respond
  simp only [hrepeats, if_true, and_self]

/-- The standard input is read for one file at most. Then the response to several files is that
to each of them alone, one behind the other, but for what counts those that fail. -/
theorem respond_independent :
    let alone (emit : Emit) (file : String) := (r.alone emit file).respond source
    let failed := r.files.countP fun file => (alone r.emit file).exitCode == 1
    (r.files.count "-" ≤ 1 → ∃ notes : String → String,
      (∀ file ∈ r.files,
        ((alone r.emit file).exitCode = 0 ∧ (alone r.emit file).stderr = notes file) ∨
        ((alone r.emit file).exitCode = 1 ∧
          (alone r.emit file).stderr = notes file ++ "1 of 1 input(s) failed\n")) ∧
      r.respond source =
        ⟨if failed = 0 then 0 else 1,
          String.join (r.files.map fun file => (alone r.emit file).stdout),
          String.join (r.files.map notes) ++
            if failed = 0 then ""
            else s!"{failed} of {r.files.length} input(s) failed" ++ "\n"⟩) ∧
    (∀ file, (alone .ast file).exitCode = 1 → (alone .ast file).stdout = "") ∧
    (∀ file, (alone .tokens file).exitCode = 1 →
      (alone .ast file).exitCode = 1 ∧ (alone .ast file).stderr = (alone .tokens file).stderr) ∧
    (∀ file, (alone .ast file).exitCode = 0 → (alone .tokens file).exitCode = 0) ∧
    (1 < r.files.count "-" → (Invocation.run r).inputs = [] ∧
      (r.respond source).stdout = "" ∧ (r.respond source).exitCode = 1) := by
  intro alone failed
  refine ⟨fun hcount => ?_, fun file h => ?_, r.respond_of_lexical source,
    r.exitCode_of_tree source, r.respond_of_repeats source⟩
  · refine ⟨fun file => (r.report file (source file)).stderr, fun file _ => ?_, ?_⟩
    · simp only [alone, respond_alone, Response.ofReports_singleton, report_alone]
      cases (r.report file (source file)).succeeded
      · exact .inr ⟨rfl, rfl⟩
      · exact .inl ⟨rfl, String.append_empty⟩
    · have hfailed : failed = _ := r.countP_fails_alone source
      rw [respond_of_count r source hcount, Response.ofReports, ← hfailed]
      simp only [List.map_map, List.length_map, alone, respond_alone,
        Response.ofReports_singleton, report_alone, Function.comp_def]
      rfl
  · rw [fails_alone_iff] at h
    simp only [alone, respond_alone, Response.ofReports_singleton]
    exact r.stdout_of_failure file _ h

/-- Three inputs, of which one cannot be read, one has a fault, and one is well. -/
theorem respond_independent_of_three :
    let r : Request := ⟨["a", "-", "b"], .tokens, .text, 0⟩
    let source (file : String) : Except ReadError String :=
      if file = "a" then .error (.missing "a") else .ok (if file = "-" then "$" else "")
    (∃ notes : String → String, r.respond source =
      ⟨1, "1:1 Illegal \"invalid character '$'\"\n1:2 EndOfFile \"\"\n1:1 EndOfFile \"\"\n",
        String.join (["a", "-", "b"].map notes) ++ "2 of 3 input(s) failed\n"⟩) ∧
    (Request.respond ⟨["-", "a", "-"], .tokens, .text, 0⟩ source).stdout = "" := by
  intro r source
  refine ⟨?_, ((respond_independent ⟨["-", "a", "-"], .tokens, .text, 0⟩ source).2.2.2.2
    (by decide)).2.1⟩
  obtain ⟨notes, -, hrespond⟩ := (respond_independent r source).1 (by decide)
  refine ⟨notes, hrespond.trans ?_⟩
  have hfailed : (r.files.countP fun file =>
      ((r.alone r.emit file).respond source).exitCode == 1) = 2 := by decide +kernel
  have hstdout : String.join (r.files.map fun file =>
      ((r.alone r.emit file).respond source).stdout) =
      "1:1 Illegal \"invalid character '$'\"\n1:2 EndOfFile \"\"\n1:1 EndOfFile \"\"\n" := by
    decide +kernel
  have hsummary : s!"{2} of {r.files.length} input(s) failed" ++ "\n" =
      "2 of 3 input(s) failed\n" := by decide +kernel
  dsimp only
  rw [hfailed, hstdout, if_neg (by decide), if_neg (by decide), hsummary]

end Reports

end Request

end FrontEnd.CommandLine
