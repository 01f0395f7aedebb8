import ConstScript.Command.Run
import ConstScript.Proofs.Command.Input
import ConstScript.Proofs.Eval.Depth
import ConstScript.Proofs.Eval.Output
import ConstScript.Proofs.Session.Concatenation

set_option autoImplicit false

/-! # What an interactive session writes

An interactive session is a session: `Conversation` says which lines of the standard input it
answers, and what each of these came to when they were run one after another in one scope. What is
written on each channel is put together from this. A session that has no result breaks off in a line
during which calls are nested too deeply.

The command forgets before each line what was printed, where a session keeps it. Since no evaluation
can tell, this makes no difference. -/

namespace ConstScript

variable [Hashing]

/-! ## Sessions of several texts -/

namespace Session

/-- What a text of a session came to, and what it has printed. -/
structure Answer where
  source : String
  result : RunResult
  printed : String

/-- The texts are run one after another in the scope, from the one store to the other, with these
    answers. Calls are not nested too deeply in any of them. -/
inductive Answers (depth : Nat) (scope : ScopeId) : Store → List Answer → Store → Prop
  | nil {st : Store} : Answers depth scope st [] st
  | cons {st mid st' : Store} {a : Answer} {rest : List Answer} :
      run depth scope a.source st = (a.result, mid) → a.result ≠ .tooDeep →
      mid.output = st.output ++ a.printed → Answers depth scope mid rest st' →
      Answers depth scope st (a :: rest) st'

variable {depth : Nat} {scope : ScopeId} {st : Store}

theorem run_withEarlier (depth : Nat) (scope : ScopeId) (source text : String) (st : Store) :
    run depth scope source (st.withEarlier text)
      = ((run depth scope source st).1, (run depth scope source st).2.withEarlier text) := by
  cases herrors : (Program.parse source).errors with
  | nil =>
      simp only [run, herrors, Program.eval_withEarlier]
      rcases (Program.parse source).program.eval depth scope st with ⟨_ | v, st'⟩ <;> rfl
  | cons error errors => simp only [run, herrors]

/-- A run does what it does from where nothing was printed. -/
theorem exists_run_eq (depth : Nat) (scope : ScopeId) (source : String) (st : Store) :
    ∃ result after, run depth scope source { st with output := "" } = (result, after) ∧
      run depth scope source st = (result, after.withEarlier st.output) := by
  have hst : Store.withEarlier { st with output := "" } st.output = st := by
    rw [Store.withEarlier, String.append_empty]
  have hrun := run_withEarlier depth scope source st.output { st with output := "" }
  rw [hst] at hrun
  exact ⟨_, _, rfl, hrun⟩

/-- At a greater depth the answers are the same. -/
theorem Answers.of_le {depth' : Nat} {answers : List Answer} {st' : Store} (hle : depth ≤ depth')
    (h : Answers depth scope st answers st') : Answers depth' scope st answers st' := by
  induction h with
  | nil => exact .nil
  | @cons st mid st' a rest hrun hends hprinted _ ih =>
      have hanswered : (run depth scope a.source st).1 ≠ .tooDeep := by
        rw [hrun]
        exact hends
      exact .cons ((run_of_le hle hanswered).trans hrun) hends hprinted ih

/-- An answer with syntax errors can be taken out. -/
theorem Answers.remove {before after : List Answer} {a : Answer} {st' : Store}
    (h : Answers depth scope st (before ++ a :: after) st')
    (ha : (Program.parse a.source).errors ≠ []) :
    a.result = .rejected (Program.parse a.source).errors ∧ a.printed = "" ∧
      Answers depth scope st (before ++ after) st' := by
  induction before generalizing st with
  | nil =>
      cases h with
      | cons hrun _ hprinted hafter =>
          obtain ⟨hresult, rfl⟩ := Prod.mk.inj ((run_rejected ha).symm.trans hrun)
          exact ⟨hresult.symm, String.append_eq_left_iff.1 hprinted.symm, hafter⟩
  | cons b before ih =>
      cases h with
      | cons hrun hends hprinted hrest =>
          obtain ⟨hresult, hsilent, hanswers⟩ := ih hrest
          exact ⟨hresult, hsilent, .cons hrun hends hprinted hanswers⟩

end Session

/-! ## What is written -/

open Session

/-- The text of a result on the standard output: that of its value, unless there is nothing to
    show. -/
def RunResult.shown : RunResult → String
  | .finished .null | .finished (.error _) | .rejected _ | .tooDeep => ""
  | .finished v => v.text ++ "\n"

/-- The text of a result on the standard error: that of a runtime error, or of all syntax
    errors. -/
def RunResult.reported : RunResult → String
  | .rejected errors => SyntaxError.report errors ++ "\n"
  | .finished (.error e) => (Value.error e).text ++ "\n"
  | .finished _ | .tooDeep => ""

namespace Command

omit [Hashing] in
theorem report_eq {r : RunResult} (h : r ≠ .tooDeep) : report r = some ⟨r.shown, r.reported⟩ := by
  cases r with
  | finished v => cases v <;> rfl
  | rejected => rfl
  | tooDeep => exact absurd rfl h

/-- The line of an answer. -/
def line (a : Answer) : List UInt8 := encoded a.source

/-- An interactive session answers the first lines of the input, and the others stay unread: either
    none, or those from the first one on that is no text. -/
structure Conversation (depth : Nat) (stdin : List UInt8) (answers : List Answer)
    (unread : List (List UInt8)) : Prop where
  areLines : AreLines (answers.map line ++ unread)
  flatten : (answers.map line ++ unread).flatten = stdin
  unread : ∀ l ∈ unread.head?, ∀ text, encoded text ≠ l
  answers : ∃ st, Answers depth start.1 start.2 answers st

/-- An interactive session does not come to its end: it answers the first lines of the input, and in
    the next one calls are nested too deeply. -/
def BreaksOff (depth : Nat) (stdin : List UInt8) : Prop :=
  ∃ answers source rest st, lines stdin = answers.map line ++ encoded source :: rest ∧
    Answers depth start.1 start.2 answers st ∧
    (Session.run depth start.1 source st).1 = .tooDeep

/-- How an interactive session ends. -/
def exitOf (texts : Texts) (answers : List Answer) (unread : List (List UInt8)) : Exit where
  code := if unread = [] then 0 else 1
  written := {
    out := String.join (answers.map fun a => ">> " ++ a.printed ++ a.result.shown) ++ ">> "
    err := String.join (answers.map fun a => a.result.reported) ++
      if unread = [] then ""
      else texts.failure "failed to read from stdin" "stream did not contain valid UTF-8" }

variable {texts : Texts} {depth : Nat} {scope : ScopeId}

omit [Hashing] in
theorem exitOf_cons (a : Answer) (rest : List Answer) (unread : List (List UInt8)) :
    exitOf texts (a :: rest) unread = ⟨(exitOf texts rest unread).code,
      ⟨prompt, ""⟩ ++ ⟨a.printed ++ a.result.shown, a.result.reported⟩ ++
        (exitOf texts rest unread).written⟩ := by
  unfold exitOf
  rw [List.map_cons, List.map_cons, String.join_cons, String.join_cons]
  generalize String.join (rest.map fun a => ">> " ++ a.printed ++ a.result.shown) = out
  generalize String.join (rest.map fun a => a.result.reported) = err
  show Exit.mk _ ⟨_, _⟩ = Exit.mk _ ⟨">> " ++ (a.printed ++ a.result.shown) ++ (out ++ ">> "),
    "" ++ a.result.reported ++ (err ++ _)⟩
  simp only [String.append_assoc, String.empty_append]

/-- One line: what is written is that of the session. -/
theorem runText_eq {st mid : Store} {a : Answer}
    (hrun : Session.run depth scope a.source st = (a.result, mid)) (hends : a.result ≠ .tooDeep)
    (hprinted : mid.output = st.output ++ a.printed) (text : String) :
    runText depth scope a.source { st with output := text }
      = some (⟨a.printed ++ a.result.shown, a.result.reported⟩,
        { mid with output := a.printed }) := by
  obtain ⟨result, after, hfresh, hwhole⟩ := exists_run_eq depth scope a.source st
  obtain ⟨rfl, rfl⟩ := Prod.mk.inj (hwhole.symm.trans hrun)
  have hout : after.output = a.printed := (String.append_right_inj st.output).1 hprinted
  have hrunText : runText depth scope a.source { st with output := text }
      = some (⟨after.output, ""⟩ ++ ⟨a.result.shown, a.result.reported⟩, after) := by
    unfold runText
    rw [hfresh]
    dsimp only
    rw [report_eq hends]
    rfl
  have hwritten : (⟨after.output, ""⟩ : Written) ++ ⟨a.result.shown, a.result.reported⟩
      = ⟨after.output ++ a.result.shown, "" ++ a.result.reported⟩ := rfl
  rw [hrunText, hwritten, ← hout, String.empty_append]
  rfl

theorem runText_tooDeep {source : String} {st : Store}
    (h : (Session.run depth scope source st).1 = .tooDeep) (text : String) :
    runText depth scope source { st with output := text } = none := by
  obtain ⟨result, after, hfresh, hwhole⟩ := exists_run_eq depth scope source st
  rw [hwhole] at h
  obtain rfl : result = .tooDeep := h
  unfold runText
  rw [hfresh]
  rfl

/-- A line that is answered, and then the others. -/
theorem runLines_cons {st mid : Store} {a : Answer}
    (hrun : Session.run depth scope a.source st = (a.result, mid)) (hends : a.result ≠ .tooDeep)
    (hprinted : mid.output = st.output ++ a.printed) (rest : List (List UInt8)) (text : String) :
    runLines texts depth scope (line a :: rest) { st with output := text }
      = (runLines texts depth scope rest { mid with output := a.printed }).map fun exit =>
        ⟨exit.code, ⟨prompt, ""⟩ ++ ⟨a.printed ++ a.result.shown, a.result.reported⟩ ++
          exit.written⟩ := by
  have hline : runLine texts depth scope (line a) { st with output := text } = some (.ok
      (⟨a.printed ++ a.result.shown, a.result.reported⟩, { mid with output := a.printed })) := by
    simp only [runLine, line, decodeText_encoded, runText_eq hrun hends hprinted, Option.map_some]
  rw [runLines, hline, Option.map_eq_bind]
  rfl

/-- All lines: what is written is put together from the answers. -/
theorem runLines_eq {st st' : Store} {answers : List Answer} {unread : List (List UInt8)}
    (h : Answers depth scope st answers st')
    (hunread : ∀ l ∈ unread.head?, ∀ text, encoded text ≠ l) (text : String) :
    runLines texts depth scope (answers.map line ++ unread) { st with output := text }
      = some (exitOf texts answers unread) := by
  induction h generalizing text with
  | @nil st =>
      cases unread with
      | nil => rfl
      | cons l unread =>
          rcases decodeText_eq l with ⟨source, hsource, -⟩ | ⟨-, hfailure⟩
          · exact absurd hsource (hunread l rfl source)
          · rw [List.map_nil, List.nil_append, runLines, runLine, hfailure]
            rfl
  | @cons st mid st' a rest hrun hends hprinted _ ih =>
      rw [List.map_cons, List.cons_append, runLines_cons hrun hends hprinted, ih a.printed,
        exitOf_cons]
      rfl

/-- There is no result if calls are nested too deeply after some answers. -/
theorem runLines_eq_none {st st' : Store} {answers : List Answer} {source : String}
    (h : Answers depth scope st answers st')
    (hdeep : (Session.run depth scope source st').1 = .tooDeep) (rest : List (List UInt8))
    (text : String) :
    runLines texts depth scope (answers.map line ++ encoded source :: rest)
      { st with output := text } = none := by
  induction h generalizing text with
  | nil =>
      rw [List.map_nil, List.nil_append, runLines, runLine, decodeText_encoded]
      dsimp only
      rw [runText_tooDeep hdeep]
      rfl
  | cons hrun hends hprinted _ ih =>
      rw [List.map_cons, List.cons_append, runLines_cons hrun hends hprinted, ih hdeep]
      rfl

/-- As many lines are answered as there are texts at the start, unless calls are nested too deeply in
    one of them. -/
theorem exists_answers (ls : List (List UInt8)) (st : Store) :
    (∃ answers unread st', ls = answers.map line ++ unread ∧
      (∀ l ∈ unread.head?, ∀ text, encoded text ≠ l) ∧ Answers depth scope st answers st') ∨
    ∃ answers source rest st', ls = answers.map line ++ encoded source :: rest ∧
      Answers depth scope st answers st' ∧ (Session.run depth scope source st').1 = .tooDeep := by
  induction ls generalizing st with
  | nil => exact .inl ⟨[], [], st, rfl, by simp, .nil⟩
  | cons l ls ih =>
      rcases decodeText_eq l with ⟨source, rfl, -⟩ | ⟨hnone, -⟩
      · obtain ⟨result, after, -, hrun⟩ := exists_run_eq depth scope source st
        by_cases hends : result = .tooDeep
        · exact .inr ⟨[], source, ls, st, rfl, .nil, by rw [hrun]; exact hends⟩
        · have hcons : ∀ {answers : List Answer} {st' : Store},
              Answers depth scope (after.withEarlier st.output) answers st' →
              Answers depth scope st (⟨source, result, after.output⟩ :: answers) st' :=
            fun hanswers => .cons hrun hends rfl hanswers
          rcases ih (after.withEarlier st.output) with
            ⟨answers, unread, st', rfl, hunread, hanswers⟩ |
              ⟨answers, last, rest, st', rfl, hanswers, hdeep⟩
          · exact .inl ⟨_, unread, st', rfl, hunread, hcons hanswers⟩
          · exact .inr ⟨_, last, rest, st', rfl, hcons hanswers, hdeep⟩
      · refine .inl ⟨[], l :: ls, st, rfl, fun l' hl' => ?_, .nil⟩
        obtain rfl := Option.some.inj hl'
        exact hnone

/-- The line of an answer with syntax errors can be taken out of the input. -/
theorem Conversation.remove {stdin : List UInt8} {before after : List Answer} {a : Answer}
    {unread : List (List UInt8)} (h : Conversation depth stdin (before ++ a :: after) unread)
    (ha : (Program.parse a.source).errors ≠ []) :
    a.result = .rejected (Program.parse a.source).errors ∧ a.printed = "" ∧
      Conversation depth ((before ++ after).map line ++ unread).flatten (before ++ after)
        unread := by
  obtain ⟨st, hanswers⟩ := h.answers
  obtain ⟨hresult, hsilent, hremoved⟩ := hanswers.remove ha
  refine ⟨hresult, hsilent, ⟨?_, rfl, h.unread, st, hremoved⟩⟩
  have hlines := h.areLines
  rw [List.map_append, List.map_cons, List.append_assoc, List.cons_append] at hlines
  rw [List.map_append, List.append_assoc]
  exact hlines.remove

/-- **An interactive session is a session.** Every standard input is cut after each line feed into
    lines, of which all are answered, or those before the first one that is no text; the only other
    case is that calls are nested too deeply in one of them, and then the command has no result. The
    answers are those of a session that runs these lines one after another in one new scope. The
    standard output is, for each of them, the prompt, what the line prints and the value of its
    result, and then one more prompt; and the standard error is the errors, followed by the failure
    to read if there was one, which also decides the exit code. At a greater depth all of this is the
    same. A line with syntax errors prints nothing and leaves the store as it was, and without it all
    other answers are the same. -/
theorem run_interactive (texts : Texts) (depth : Nat)
    (readFile : String → Except ReadFailure (List UInt8)) (stdin : List UInt8) :
    ((∃ answers unread, Conversation depth stdin answers unread) ∨
      BreaksOff depth stdin ∧ run texts depth readFile stdin [] = none) ∧
    ∀ answers unread, Conversation depth stdin answers unread →
      (∀ depth', depth ≤ depth' →
        run texts depth' readFile stdin [] = some (exitOf texts answers unread)) ∧
      ∀ before a after, answers = before ++ a :: after → (Program.parse a.source).errors ≠ [] →
        a.result = .rejected (Program.parse a.source).errors ∧ a.printed = "" ∧
        (∀ st, Session.run depth start.1 a.source st
          = (.rejected (Program.parse a.source).errors, st)) ∧
        Conversation depth ((before ++ after).map line ++ unread).flatten (before ++ after)
          unread := by
  have hrun : ∀ depth, run texts depth readFile stdin []
      = runLines texts depth start.1 (lines stdin) start.2 := fun _ => rfl
  constructor
  · obtain ⟨hlines, hflatten⟩ := areLines_lines stdin
    rcases exists_answers (lines stdin) start.2 with
      ⟨answers, unread, st, heq, hunread, hanswers⟩ |
        ⟨answers, source, rest, st, heq, hanswers, hdeep⟩
    · rw [heq] at hlines hflatten
      exact .inl ⟨answers, unread, hlines, hflatten, hunread, st, hanswers⟩
    · refine .inr ⟨⟨answers, source, rest, st, heq, hanswers, hdeep⟩, ?_⟩
      rw [hrun, heq]
      exact runLines_eq_none hanswers hdeep rest ""
  · intro answers unread h
    constructor
    · intro depth' hle
      obtain ⟨st, hanswers⟩ := h.answers
      have hlines := lines_eq_iff.2 ⟨h.areLines, h.flatten⟩
      rw [hrun, hlines]
      exact runLines_eq (hanswers.of_le hle) h.unread ""
    · rintro before a after rfl ha
      obtain ⟨hresult, hsilent, hremoved⟩ := h.remove ha
      exact ⟨hresult, hsilent, fun st => run_rejected ha, hremoved⟩

omit [Hashing] in
/-- A line with a value, one with a syntax error, and one that is no text. -/
theorem run_interactive_unreadable :
    let _ : Hashing := .inOrder fun _ => 0
    let value : Answer := ⟨"7\n", .finished (.int 7), ""⟩
    let bracket : Answer := ⟨")\n", .rejected (Program.parse ")\n").errors, ""⟩
    let stdin : List UInt8 := [55, 10, 41, 10, 255, 10]
    let texts : Texts := ⟨"", "", fun _ => "", fun what cause => what ++ ": " ++ cause ++ "\n"⟩
    Conversation 0 stdin [value, bracket] [[255, 10]] ∧
    (Program.parse bracket.source).errors ≠ [] ∧
    (run texts 0 (fun _ => .error .missing) stdin []).map
      (fun exit => (exit.code, exit.written.out)) = some (1, ">> 7\n>> >> ") ∧
    Conversation 0 [55, 10, 255, 10] [value] [[255, 10]] := by
  intro _ value bracket stdin texts
  have hlines : AreLines [line value, line bracket, [255, 10]] :=
    @AreLines.ended [55] _ (by decide) <| @AreLines.ended [41] _ (by decide) <|
      @AreLines.ended [255] _ (by decide) .nil
  have hunread : ∀ text, encoded text ≠ [255, 10] := by
    intro text htext
    have hbytes : text.toByteArray = ⟨#[255, 10]⟩ :=
      ByteArray.ext (Array.toList_inj.1 htext)
    have hvalid := ByteArray.validateUTF8_eq_true_iff.2 (hbytes ▸ text.isValidUTF8)
    exact absurd hvalid (by decide +kernel)
  have hparse : (Program.parse value.source).program.statements = [.expr (.int 7)] := by
    decide +kernel
  have hvalue : Session.run 0 start.1 value.source start.2 = (value.result, start.2) := by
    rw [Session.run_eq (by decide +kernel), hparse]
    rfl
  have herrors : (Program.parse bracket.source).errors ≠ [] := by decide +kernel
  have hconversation : Conversation 0 stdin [value, bracket] [[255, 10]] := {
    areLines := hlines
    flatten := by decide +kernel
    unread := by
      intro l hl
      obtain rfl := Option.some.inj hl
      exact hunread
    answers := ⟨start.2, .cons hvalue nofun rfl (.cons (run_rejected herrors) nofun rfl .nil)⟩ }
  obtain ⟨-, hrun⟩ := run_interactive texts 0 (fun _ => .error .missing) stdin
  obtain ⟨hexit, hremove⟩ := hrun _ _ hconversation
  obtain ⟨-, -, -, hremoved⟩ := hremove [value] bracket [] rfl herrors
  refine ⟨hconversation, herrors, ?_, hremoved⟩
  rw [hexit 0 le_rfl]
  decide +kernel

end Command

end ConstScript
