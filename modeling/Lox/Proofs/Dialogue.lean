/-
  File:      Lox/Proofs/Dialogue.lean
  Subject:   The lines of a dialogue meet in the variables only.

  In interactive mode all lines share one session, but the reporter is cleared before each of them:
  a line finds the variables that the lines before it left, and no trace of their errors.

  * `Repl.said`, `Repl.heard` -- what one line writes and leaves, and what several do;
  * `Repl.answer_append` -- a dialogue in two goes;
  * `Repl.respond_congr`, `Repl.answer_congr` -- sessions with the same variables give the same
    answers;
  * `Repl.said_of_error` -- what a line with a lexical or syntax error writes and leaves;
  * `lines_meet_in_variables` -- all of this for dialogues of any length.
-/
import Lox.Command.Repl
import Lox.Proofs.Gate

namespace Lox

/-! ## 1. Consoles -/

namespace Console

theorem append_eq (a b : Console) : a ++ b = ⟨a.out ++ b.out, a.err ++ b.err⟩ := rfl

theorem append_assoc (a b c : Console) : a ++ b ++ c = a ++ (b ++ c) := by
  simp only [append_eq, List.append_assoc]

@[simp] theorem outText_append (a b : Console) : (a ++ b).outText = a.outText ++ b.outText := by
  simp only [append_eq, outText, String.join_append]

@[simp] theorem errText_append (a b : Console) : (a ++ b).errText = a.errText ++ b.errText := by
  simp only [append_eq, errText, String.join_append]

@[simp] theorem outText_print (text : String) : (print text).outText = text := by
  simp [print, outText]

@[simp] theorem errText_print (text : String) : (print text).errText = "" := rfl

@[simp] theorem outText_ofTranscript (t : Transcript) : (ofTranscript t).outText = t.printed := by
  simp [ofTranscript, outText]

@[simp] theorem errText_ofTranscript (t : Transcript) :
    (ofTranscript t).errText = Diagnostic.texts t.diagnostics := by
  simp [ofTranscript, errText]

end Console

@[simp] theorem unlines_nil : unlines [] = "" := rfl

namespace Repl

variable {o : Options} {close : Close} {s s' : Session} {line : String}

namespace Dialogue

@[simp] theorem console_behind (c : Console) (d : Dialogue) :
    (d.behind c).console = c ++ d.console := rfl

@[simp] theorem session_behind (c : Console) (d : Dialogue) :
    (d.behind c).session = d.session := rfl

@[simp] theorem ending_behind (c : Console) (d : Dialogue) : (d.behind c).ending = d.ending := rfl

theorem behind_empty (d : Dialogue) : d.behind {} = d := rfl

theorem behind_behind (a b : Console) (d : Dialogue) :
    (d.behind b).behind a = d.behind (a ++ b) := by
  simp only [behind, Console.append_assoc]

end Dialogue

/-! ## 2. Lines -/

/-- True of the lines that leave. -/
def Leaves (line : String) : Prop :=
  Text.strip line ∈ farewells

instance : DecidablePred Leaves :=
  fun line => inferInstanceAs (Decidable (Text.strip line ∈ farewells))

/-- What a line that does not leave writes, the prompt before it included, and what it leaves. -/
def said (o : Options) (s : Session) (line : String) : Dialogue :=
  match respond o s line with
  | .turn t => { console := .print prompt ++ .ofTranscript t.written, session := t.session }
  | _ => { console := .print prompt, session := s }

/-- What lines that do not leave write and leave, one after the other. -/
def heard (o : Options) (s : Session) : List String → Dialogue
  | [] => { console := {}, session := s }
  | line :: rest => (heard o (said o s line).session rest).behind (said o s line).console

theorem respond_farewell (h : Leaves line) : respond o s line = .farewell := by
  unfold Leaves at h
  simp only [respond, if_pos h]

theorem respond_blank (h : ¬ Leaves line) (hblank : Text.strip line = "") :
    respond o s line = .silence := by
  unfold Leaves at h
  simp only [respond, if_neg h, if_pos hblank]

theorem respond_source (h : ¬ Leaves line) (hblank : Text.strip line ≠ "") :
    respond o s line = .turn
      ({ s with reporter := s.reporter.reset }.run { o with echo := true } line) := by
  unfold Leaves at h
  simp only [respond, if_neg h, if_neg hblank]

/-- A dialogue ends with a line that leaves, whatever is behind it. -/
theorem answer_farewell (h : Leaves line) (rest : List String) :
    answer o close s (line :: rest) = { console := .print prompt, session := s } := by
  rw [answer, respond_farewell h]

/-- A dialogue goes on behind a line that does not leave. -/
theorem answer_cons (h : ¬ Leaves line) (rest : List String) :
    answer o close s (line :: rest) =
      (answer o close (said o s line).session rest).behind (said o s line).console := by
  rw [answer, said]
  by_cases hblank : Text.strip line = ""
  · rw [respond_blank h hblank]
  · simp only [respond_source h hblank, Session.run_fault]

/-- **A dialogue in two goes.** -/
theorem answer_append {before : List String} (h : ∀ line ∈ before, ¬ Leaves line)
    (rest : List String) :
    answer o close s (before ++ rest) =
      (answer o close (heard o s before).session rest).behind (heard o s before).console := by
  induction before generalizing s with
  | nil => simp only [heard, List.nil_append, Dialogue.behind_empty]
  | cons line before ih =>
      obtain ⟨hline, hbefore⟩ := List.forall_mem_cons.mp h
      rw [List.cons_append, answer_cons hline, ih hbefore, Dialogue.behind_behind]
      simp only [heard, Dialogue.session_behind, Dialogue.console_behind]

/-- Every dialogue ends well. -/
theorem answer_ending : ∀ (s : Session) (lines : List String),
    (answer o close s lines).ending = .exit Exit.ok
  | _, [] => rfl
  | s, line :: rest => by
      by_cases h : Leaves line
      · rw [answer_farewell h]
      · rw [answer_cons h, Dialogue.ending_behind]
        exact answer_ending _ rest

/-! ## 3. Sessions with the same variables -/

/-- **A line is answered from the variables alone**, whatever the reporter remembers. -/
theorem respond_congr (h : s.env = s'.env) (line : String) :
    respond o s line = respond o s' line := by
  simp only [respond, Reporter.reset, h]

theorem said_congr (h : s.env = s'.env) (line : String) :
    (said o s line).console = (said o s' line).console ∧
      (said o s line).session.env = (said o s' line).session.env := by
  rw [said, said, respond_congr h]
  split
  · exact ⟨rfl, rfl⟩
  · exact ⟨rfl, h⟩

/-- **Sessions with the same variables go through the same dialogue**, and keep the same
    variables. -/
theorem answer_congr (o : Options) (close : Close) (h : s.env = s'.env) (lines : List String) :
    (answer o close s lines).console = (answer o close s' lines).console ∧
      (answer o close s lines).session.env = (answer o close s' lines).session.env := by
  induction lines generalizing s s' with
  | nil => exact ⟨rfl, h⟩
  | cons line rest ih =>
      by_cases hline : Leaves line
      · rw [answer_farewell hline, answer_farewell hline]
        exact ⟨rfl, h⟩
      · obtain ⟨hconsole, henv⟩ := said_congr (o := o) h line
        obtain ⟨hlater, hend⟩ := ih henv
        rw [answer_cons hline, answer_cons hline]
        simp only [Dialogue.console_behind, Dialogue.session_behind, hconsole, hlater, hend,
          and_self]

/-! ## 4. Lines with errors -/

/-- **A line with a lexical or syntax error** writes its reports, and its tokens if they are asked
    for; and it keeps the variables. -/
theorem said_of_error (hstays : ¬ Leaves line) (hblank : Text.strip line ≠ "")
    (herror : ¬ Silent line) :
    (said o s line).session.env = s.env ∧
      (said o s line).console.outText = prompt ++ unlines (o.tokenListing line) ∧
      (said o s line).console.errText =
        Diagnostic.texts (({} : Reporter).read line).diagnostics := by
  have hflag : (s.reporter.reset.read line).program.reporter.hadError = true :=
    (s.reporter.reset.read_flagged line).mpr (.inr herror)
  rw [said, respond_source hstays hblank, Session.run_of_flagged hflag]
  refine ⟨rfl, ?_, ?_⟩
  · simp only [Console.outText_append, Console.outText_print, Console.outText_ofTranscript,
      Transcript.printed, unlines_nil, String.append_empty]
    rfl
  · simp only [Console.errText_append, Console.errText_print, Console.errText_ofTranscript,
      String.empty_append]
    rfl

end Repl

open Repl in
/-- **The lines of a dialogue meet in the variables only.** Behind lines that left the same
    variables, whatever else they did, every line writes and leaves the same, and so do all that
    follow.  So a line with a lexical or syntax error can be left out of a dialogue: this changes
    neither the variables nor the exit code, and takes away one prompt, the tokens of the line if
    they are listed, and the reports of the line. -/
theorem lines_meet_in_variables (o : Options) (close : Close) :
    (∀ (s s' : Session) (before before' : List String),
      (∀ line ∈ before, ¬ Leaves line) → (∀ line ∈ before', ¬ Leaves line) →
      (heard o s before).session.env = (heard o s' before').session.env →
      (∀ line,
        (said o (heard o s before).session line).console =
          (said o (heard o s' before').session line).console ∧
        (said o (heard o s before).session line).session.env =
          (said o (heard o s' before').session line).session.env) ∧
      ∀ rest, ∃ later : Console,
        (answer o close s (before ++ rest)).console = (heard o s before).console ++ later ∧
        (answer o close s' (before' ++ rest)).console = (heard o s' before').console ++ later ∧
        (answer o close s (before ++ rest)).session.env =
          (answer o close s' (before' ++ rest)).session.env) ∧
    (∀ (before : List String) (b : String) (after : List String),
      (∀ line ∈ before, ¬ Leaves line) → ¬ Leaves b → Text.strip b ≠ "" → ¬ Silent b →
      (answer o close {} (before ++ b :: after)).session.env =
        (answer o close {} (before ++ after)).session.env ∧
      (run o close (before ++ b :: after)).ending = .exit 0 ∧
      (run o close (before ++ after)).ending = .exit 0 ∧
      ∃ later : Console,
        let lead := Console.print banner ++ (heard o {} before).console
        (run o close (before ++ b :: after)).console.outText =
          lead.outText ++ (prompt ++ unlines (o.tokenListing b)) ++ later.outText ∧
        (run o close (before ++ after)).console.outText = lead.outText ++ later.outText ∧
        (run o close (before ++ b :: after)).console.errText =
          lead.errText ++ Diagnostic.texts (({} : Reporter).read b).diagnostics ++ later.errText ∧
        (run o close (before ++ after)).console.errText = lead.errText ++ later.errText) := by
  constructor
  · intro s s' before before' hbefore hbefore' henv
    refine ⟨said_congr henv, fun rest => ?_⟩
    obtain ⟨hconsole, hend⟩ := answer_congr o close henv rest
    rw [answer_append hbefore, answer_append hbefore']
    exact ⟨_, Dialogue.console_behind _ _, by rw [hconsole, Dialogue.console_behind], hend⟩
  · intro before b after hbefore hstays hblank herror
    obtain ⟨henv, hout, herr⟩ :=
      said_of_error (o := o) (s := (heard o {} before).session) hstays hblank herror
    obtain ⟨hconsole, hend⟩ := answer_congr o close henv after
    refine ⟨?_, answer_ending _ _, answer_ending _ _,
      (answer o close (heard o {} before).session after).console, ?_⟩
    · rw [answer_append hbefore, answer_append hbefore, answer_cons hstays]
      exact hend
    · simp only [run, answer_append hbefore, answer_cons hstays, Dialogue.console_behind,
        Console.outText_append, Console.errText_append, hconsole, hout, herr, String.append_assoc,
        and_self]

open Repl in
/-- A line that would bind and print if its parenthesis were closed, between a line that binds and
    lines that print and leave; and a line that fails, which leaves the variables of no line at
    all. -/
theorem lines_meet_in_variables_unclosed :
    let before := ["var a = \"x\";", "  "]
    let b := "a = \"y\"; print (a"
    let after := ["print a + a;", " quit", "print a;"]
    (∀ line ∈ before, ¬ Leaves line) ∧ ¬ Leaves b ∧ Text.strip b ≠ "" ∧ ¬ Silent b ∧
      (answer {} .endOfInput {} (before ++ b :: after)).session.env =
        (answer {} .endOfInput {} (before ++ after)).session.env ∧
      (heard {} {} ["print c;"]).session.env = (heard {} {} []).session.env ∧
      (said {} (heard {} {} ["print c;"]).session "c = nil").console =
        (said {} (heard {} {} []).session "c = nil").console := by
  intro before b after
  have hbefore : ∀ line ∈ before, ¬ Leaves line := by decide +kernel
  have hb : ¬ Leaves b ∧ Text.strip b ≠ "" ∧ ¬ Silent b := by decide +kernel
  have hfailed : ∀ line ∈ ["print c;"], ¬ Leaves line := by decide +kernel
  have hnone : ∀ line ∈ ([] : List String), ¬ Leaves line := fun _ h => absurd h List.not_mem_nil
  have henv : (heard {} {} ["print c;"]).session.env = (heard {} {} []).session.env := by
    decide +kernel
  obtain ⟨hmeet, hleft⟩ := lines_meet_in_variables {} .endOfInput
  exact ⟨hbefore, hb.1, hb.2.1, hb.2.2, (hleft before b after hbefore hb.1 hb.2.1 hb.2.2).1, henv,
    ((hmeet {} {} _ _ hfailed hnone henv).1 "c = nil").1⟩

end Lox
