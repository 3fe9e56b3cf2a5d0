import Legalese.CommandLine.Outcome
import Legalese.Proofs.Graph

/-!
# How calls end

A call on a text ends in one of four ways: something is wrong with the text, a view of the
resolution is printed, its run comes to the end, or its run stops with a fault.  That none
of them is missed rests on the numbers: those of a text lie in the range, and so does
whatever a run makes of them, so all can be drawn and published.

Main statement: a call with valid arguments on a readable text has an end.  The status
tells a faulty text and a stopped run from all the rest, and which texts are faulty does
not depend on the output that was asked for.
-/

namespace Legalese

/-! ## The numbers of a text -/

theorem Expr.WellFormed.inRange {e : Expr} (wf : e.WellFormed) : ∀ n ∈ e.literals, InRange n := by
  induction e with
  | integer n =>
    intro m hm
    rwa [List.mem_singleton.1 hm]
  | text s => exact nofun
  | name x => exact nofun
  | unary op e ih => exact ih wf.1
  | binary op a b iha ihb =>
    intro n hn
    rcases List.mem_append.1 hn with hn | hn
    · exact iha wf.1 n hn
    · exact ihb wf.2.1 n hn
  | less l r ihl ihr =>
    intro n hn
    rcases List.mem_append.1 hn with hn | hn
    · exact ihl wf.1 n hn
    · exact ihr wf.2.1 n hn
  | power op e ih => exact ih wf.1

theorem Statement.WellFormed.expressions {a : Statement} (wf : a.WellFormed) :
    ∀ e ∈ a.expressions, e.WellFormed := by
  induction a with
  | declare d => exact wf.elim
  | assume x e =>
    intro p hp
    rw [List.mem_singleton.1 hp]
    exact wf.2
  | publish e =>
    intro p hp
    rwa [List.mem_singleton.1 hp]
  | conditional l r relation c ih =>
    intro p hp
    rcases List.mem_cons.1 hp with rfl | hp
    · exact wf.1
    · rcases List.mem_cons.1 hp with rfl | hp
      · exact wf.2.1
      · exact ih wf.2.2 p hp

theorem Resolution.WellFormed.inRange {r : Resolution} (wf : r.WellFormed) :
    ∀ n ∈ r.literals, InRange n := by
  intro n hn
  obtain ⟨a, ha, hn⟩ := List.mem_flatMap.1 hn
  obtain ⟨e, he, hn⟩ := List.mem_flatMap.1 hn
  rcases List.mem_append.1 ha with ha | ha
  · obtain ⟨d, hd, rfl⟩ := List.mem_map.1 ha
    obtain rfl := List.mem_singleton.1 he
    exact (wf.recitals d hd).value.inRange n hn
  · exact ((wf.actions a ha).expressions e he).inRange n hn

/-! ## What is written -/

/-- A list of name errors has one line for each, and any other error a single one. -/
theorem Error.lines_eq (e : Error) :
    ∃ entries : List String, e.lines = entries.map ("error: " ++ ·) ∧
      (∀ es r, e = .names es r → entries = es.map NameError.message) ∧
      ((∀ es r, e ≠ .names es r) → ∃ detail, entries = [e.message ++ detail]) := by
  cases e with
  | names es r =>
    refine ⟨es.map NameError.message, ?_, ?_, fun other => absurd rfl (other es r)⟩
    · exact (List.map_map ..).symm
    · rintro _ _ ⟨⟩
      rfl
  | unclosedText literal =>
    refine ⟨[(Error.unclosedText literal).message ++ (" after \"" ++ literal)], ?_, nofun,
      fun _ => ⟨_, rfl⟩⟩
    show ["error: " ++ (Error.unclosedText literal).message ++ " after \"" ++ literal] =
      ["error: " ++ ((Error.unclosedText literal).message ++ (" after \"" ++ literal))]
    simp only [String.append_assoc]
  | _ => exact ⟨[_], rfl, nofun, fun _ => ⟨"", by rw [String.append_empty]⟩⟩

/-- No note of the log is a warning. -/
theorem logLines_warning (log : List LogEntry) : logLines .warning log = [] := by
  have silent : ∀ e ∈ log, ¬decide (LogLevel.rank .warning ≤ e.level.rank) = true := by
    intro e _
    cases e <;> exact of_decide_eq_true rfl
  rw [logLines, List.filter_eq_nil_iff.2 silent]
  rfl

/-! ## The end of a call -/

namespace Options

/-- The ways in which a call on a text can end, after some notes. -/
inductive Ends (o : Options) (source : String) : Exit → Prop
  | badText {e : Error} (log : List LogEntry) (wrong : Resolution.ofString source = .error e) :
    Ends o source ⟨Exit.badText, "", Exit.ofLines (logLines o.logLevel log ++ e.lines)⟩
  | viewed {r : Resolution} {text : String} (log : List LogEntry)
    (read : Resolution.ofString source = .ok r) (output : o.output ≠ .lines)
    (view : view? r o.output = .ok text) :
    Ends o source ⟨Exit.success, text ++ "\n", Exit.ofLines (logLines o.logLevel log)⟩
  | finished {r : Resolution} {lines : List String} (log : List LogEntry)
    (read : Resolution.ofString source = .ok r) (output : o.output = .lines)
    (run : (r.run .empty).fault = none) (published : (r.run .empty).lines? = .ok lines) :
    Ends o source
      ⟨Exit.success, Exit.ofLines lines, Exit.ofLines (logLines o.logLevel log)⟩
  | faulted {r : Resolution} {lines : List String} {f : Fault} (log : List LogEntry)
    (read : Resolution.ofString source = .ok r) (output : o.output = .lines)
    (run : (r.run .empty).fault = some f) (published : (r.run .empty).lines? = .ok lines) :
    Ends o source ⟨Exit.faulted, Exit.ofLines lines,
      Exit.ofLines (logLines o.logLevel log ++ (Error.evaluation f.message).lines)⟩

/-- Every view of a resolution of the range can be printed. -/
theorem view?_ok {r : Resolution} (h : ∀ n ∈ r.literals, InRange n) (output : Output) :
    ∃ text, view? r output = .ok text := by
  cases output with
  | lines => exact ⟨_, rfl⟩
  | dump format => cases format <;> exact ⟨_, rfl⟩
  | report => exact ⟨_, rfl⟩
  | graph mode => exact Graph.text_ok h mode

theorem ends_finish (o : Options) {source : String} {r : Resolution}
    (read : Resolution.ofString source = .ok r) (log : List LogEntry) :
    ∃ exit, o.finish log r = .ok exit ∧ o.Ends source exit := by
  have held : r.HeldBy source := .inl read
  have literals := held.wellFormed.inRange
  by_cases output : o.output = .lines
  · have published : ∃ lines, (r.run .empty).lines? = .ok lines := by
      have inRange := Statement.inRange_of_runAll Environment.inRange_empty literals
      obtain ⟨lines, published, -⟩ := Value.lines_of_inRange inRange
      exact ⟨lines, published⟩
    obtain ⟨lines, published⟩ := published
    cases run : (r.run .empty).fault with
    | none =>
      refine ⟨_, ?_, .finished log read output run published⟩
      simp only [finish, output, published, run]
      rfl
    | some f =>
      refine ⟨_, ?_, .faulted (log ++ [.stopped f.message]) read output run published⟩
      simp only [finish, output, published, run]
      rfl
  · obtain ⟨text, view⟩ := view?_ok literals o.output
    refine ⟨_, ?_, .viewed log read output view⟩
    unfold finish
    split
    · next lines => exact absurd lines output
    · rw [view]
      rfl

/-- A call on a text has an end. -/
theorem ends_onText (o : Options) (source : String) :
    ∃ exit, o.onText source = .ok exit ∧ o.Ends source exit := by
  let opened : List LogEntry := [.opened source.length o.path]
  cases read : Reading.ofString source with
  | error f =>
    have wrong : Resolution.ofString source = .error f.error := by
      rw [Resolution.ofString, read]
    exact ⟨_, by simp only [onText, read]; rfl, .badText (opened ++ f.log) wrong⟩
  | ok reading =>
    have verdict : Resolution.ofString source = reading.verdict := by
      rw [Resolution.ofString, read]
    cases h : reading.verdict with
    | error e =>
      have wrong := verdict.trans h
      exact ⟨_, by simp only [onText, read, h]; rfl, .badText (opened ++ reading.log) wrong⟩
    | ok r =>
      obtain ⟨exit, finished, ends⟩ := o.ends_finish (verdict.trans h) (opened ++ reading.log)
      exact ⟨exit, by simp only [onText, read, h]; exact finished, ends⟩

/-! ## What an end tells -/

namespace Ends

variable {o : Options} {source : String} {exit : Exit}

/-- The status tells whether something is wrong with the text. -/
theorem status_eq_one_iff (h : o.Ends source exit) :
    exit.status = 1 ↔ ∃ e, Resolution.ofString source = .error e := by
  have faultless {r : Resolution} (read : Resolution.ofString source = .ok r) :
      ¬∃ e, Resolution.ofString source = .error e := by
    rintro ⟨e, wrong⟩
    exact nomatch read.symm.trans wrong
  cases h with
  | badText _ wrong => exact iff_of_true rfl ⟨_, wrong⟩
  | viewed _ read => exact iff_of_false nofun (faultless read)
  | finished _ read => exact iff_of_false nofun (faultless read)
  | faulted _ read => exact iff_of_false nofun (faultless read)

theorem of_error (h : o.Ends source exit) (quiet : o.logLevel = .warning) {e : Error}
    (wrong : Resolution.ofString source = .error e) :
    exit.out = "" ∧ exit.err = Exit.ofLines e.lines := by
  cases h with
  | badText log other =>
    obtain rfl := Except.error.inj (other.symm.trans wrong)
    refine ⟨rfl, ?_⟩
    rw [quiet, logLines_warning, List.nil_append]
  | viewed _ read => exact nomatch read.symm.trans wrong
  | finished _ read => exact nomatch read.symm.trans wrong
  | faulted _ read => exact nomatch read.symm.trans wrong

theorem of_view (h : o.Ends source exit) (quiet : o.logLevel = .warning) {r : Resolution}
    (read : Resolution.ofString source = .ok r) (output : o.output ≠ .lines) :
    exit.status = 0 ∧ exit.err = "" ∧
      ∃ text, view? r o.output = .ok text ∧ exit.out = text ++ "\n" := by
  cases h with
  | badText _ wrong => exact nomatch read.symm.trans wrong
  | viewed log other _ view =>
    obtain rfl := Except.ok.inj (other.symm.trans read)
    refine ⟨rfl, ?_, _, view, rfl⟩
    rw [quiet, logLines_warning]
    rfl
  | finished _ _ lines => exact absurd lines output
  | faulted _ _ lines => exact absurd lines output

/-- Up to a fault the lines of the run are printed. -/
theorem of_run (h : o.Ends source exit) {r : Resolution}
    (read : Resolution.ofString source = .ok r) (output : o.output = .lines) :
    (exit.status = 2 ↔ ∃ f, (r.run .empty).fault = some f) ∧
      ((r.run .empty).fault = none → exit.status = 0) ∧
      ∃ lines, (r.run .empty).lines? = .ok lines ∧ exit.out = Exit.ofLines lines := by
  cases h with
  | badText _ wrong => exact nomatch read.symm.trans wrong
  | viewed _ _ view => exact absurd output view
  | finished _ other _ run published =>
    obtain rfl := Except.ok.inj (other.symm.trans read)
    refine ⟨iff_of_false nofun ?_, fun _ => rfl, _, published, rfl⟩
    rintro ⟨f, fault⟩
    exact nomatch run.symm.trans fault
  | faulted _ other _ run published =>
    obtain rfl := Except.ok.inj (other.symm.trans read)
    exact ⟨iff_of_true rfl ⟨_, run⟩, fun whole => (nomatch run.symm.trans whole), _, published, rfl⟩

end Ends
end Options

namespace Request

/-- A path alone asks for a run, and for no notes. -/
theorem ofArguments_path {path : String} (word : path.toList.head? ≠ some '-') :
    ofArguments [path] = .run ⟨path, .lines, .warning⟩ := by
  have separator : path ≠ "--" := by
    rintro rfl
    exact word rfl
  have classified : Arguments.classifyAll [path] = .ok [.word path] := by
    rw [Arguments.classifyAll, if_neg separator, Arguments.classify, if_pos word]
    rfl
  have applied : Arguments.applyAll .initial [.word path] =
      .ok { Arguments.Progress.initial with path := some path } := by
    unfold Arguments.applyAll
    rfl
  simp only [ofArguments, classified, applied]
  rfl

theorem ends_perform {args : List String} {o : Options} (valid : ofArguments args = .run o)
    {files : String → Except FileError String} {source : String}
    (readable : files o.path = .ok source) :
    ∃ exit, (ofArguments args).perform files = .ok exit ∧ o.Ends source exit := by
  rw [valid]
  show ∃ exit, o.onFile (files o.path) = .ok exit ∧ o.Ends source exit
  rw [readable]
  exact o.ends_onText source

/-- A call on a readable text always has an end.  Its status is 1 if and only if something is
wrong with the text; then each error has its entry and nothing is printed.  Any view of a
resolution can be printed, and its run is printed up to the fault that stops it.  So all
outputs agree on which texts are at fault. -/
theorem perform_of_readable {args : List String} {o : Options}
    (valid : ofArguments args = .run o) (quiet : o.logLevel = .warning)
    {files : String → Except FileError String} {source : String}
    (readable : files o.path = .ok source) :
    ∃ exit, (ofArguments args).perform files = .ok exit ∧
      (exit.status = 1 ↔ ∃ e, Resolution.ofString source = .error e) ∧
      (∀ e, Resolution.ofString source = .error e →
        exit.out = "" ∧
          ∃ entries : List String, exit.err = Exit.ofLines (entries.map ("error: " ++ ·)) ∧
            (∀ es r, e = .names es r → entries = es.map NameError.message) ∧
            ((∀ es r, e ≠ .names es r) → ∃ detail, entries = [e.message ++ detail])) ∧
      (∀ r, Resolution.ofString source = .ok r → o.output ≠ .lines →
        exit.status = 0 ∧ exit.err = "" ∧
          ∃ text, Options.view? r o.output = .ok text ∧ exit.out = text ++ "\n") ∧
      (∀ r, Resolution.ofString source = .ok r → o.output = .lines →
        (exit.status = 2 ↔ ∃ f, (r.run .empty).fault = some f) ∧
          ((r.run .empty).fault = none → exit.status = 0) ∧
          ∃ lines, (r.run .empty).lines? = .ok lines ∧ exit.out = Exit.ofLines lines) ∧
      ∀ (args' : List String) (o' : Options) (files' : String → Except FileError String)
        (exit' : Exit), ofArguments args' = .run o' → files' o'.path = .ok source →
          (ofArguments args').perform files' = .ok exit' →
          (exit'.status = 1 ↔ exit.status = 1) := by
  obtain ⟨exit, performed, ends⟩ := ends_perform valid readable
  refine ⟨exit, performed, ends.status_eq_one_iff, ?_, ?_, ?_, ?_⟩
  · intro e wrong
    obtain ⟨out, err⟩ := ends.of_error quiet wrong
    obtain ⟨entries, lines, several, single⟩ := e.lines_eq
    exact ⟨out, entries, by rw [err, lines], several, single⟩
  · intro r read output
    exact ends.of_view quiet read output
  · intro r read output
    exact ends.of_run read output
  · intro args' o' files' exit' valid' readable' performed'
    obtain ⟨other, same, ends'⟩ := ends_perform valid' readable'
    obtain rfl := Except.ok.inj (same.symm.trans performed')
    rw [ends.status_eq_one_iff, ends'.status_eq_one_iff]

/-- A run that prints a line, and then stops at a division by zero. -/
theorem perform_of_readable_stopped :
    ∃ exit, (ofArguments ["resolution.txt"]).perform (fun _ => .ok
        "Act whereas (hereinafter A) zero (0) resolved, publish A resolved, publish quotient A A") =
        .ok exit ∧
      exit.status = 2 ∧ exit.out = "zero (0)\n" := by
  have valid : ofArguments ["resolution.txt"] = .run ⟨"resolution.txt", .lines, .warning⟩ :=
    ofArguments_path (by decide)
  have read : Resolution.ofString
      "Act whereas (hereinafter A) zero (0) resolved, publish A resolved, publish quotient A A" =
      .ok ⟨[⟨"A", .integer 0⟩],
        [.publish (.name "A"), .publish (.binary .quotient (.name "A") (.name "A"))]⟩ := by
    cbv
  obtain ⟨exit, performed, -, -, -, run, -⟩ := @perform_of_readable _ _ valid rfl (fun _ => .ok
    "Act whereas (hereinafter A) zero (0) resolved, publish A resolved, publish quotient A A")
    _ rfl
  obtain ⟨status, -, lines, published, out⟩ := run _ read rfl
  obtain rfl : ["zero (0)"] = lines := Except.ok.inj published
  exact ⟨exit, performed, status.2 ⟨.divisionByZero .quotient 0 0, rfl⟩, out⟩

end Request
end Legalese
