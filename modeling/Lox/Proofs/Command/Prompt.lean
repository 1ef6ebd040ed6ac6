import Lox.Command.Basic
import Lox.Proofs.Console.Lines
import Lox.Proofs.Execution.Upkeep
import Lox.Proofs.Session.Lifting
import Lox.Proofs.Session.Recorded
import Lox.Proofs.Source.Joining

/-!
# The prompt

At a console that takes everything that is written, the prompt runs the lines of its input one
after another in one session (`prompt_runs_lines`).

`runs` is that fold with the prompt left out: it runs texts in a session, each over buffers of its
own, so that what a line writes can be told from what the lines before it have written.  That the
prompt writes the same, between one "> " and the next, is due to `Session.run_eq_run`: a run does
not depend on what its sinks hold already.  `texts` cuts the lines off before the first that is no
text, which is where the prompt ends.

Whether a run ends is asked for the fuel that there is, one line at a time.
-/

namespace Lox

variable {σ : Type} {streams : Streams (StateM σ)}

namespace Session

/-- Over open sinks, a run fails for no other reason than that its fuel is used up. -/
theorem run_ne_sink (record : Recording streams) (fuel : Nat) (source : String)
    (session : Session) {s : σ} (hopen : record.IsOpen s) (failure : SinkError) :
    (outcome (run streams fuel source) session s).result ≠ .error (.sink failure) := by
  rcases mistaken_or_accepted source with hmistaken | ⟨program, haccepted⟩
  · obtain ⟨t, hrun, -⟩ := run_of_mistaken record fuel session hmistaken hopen
    rw [hrun]
    simp
  · obtain ⟨t, done, u, hshown, hdone, -, hrun⟩ :=
      run_of_accepted record fuel session haccepted hopen
    have hresult : ∀ failure, done.result ≠ .error (.output failure) := by
      rw [← hdone]
      exact (Exec.keepsSink_interpret record.keeps_isOpen fuel program _ t hshown.isOpen).2
    rw [hrun]
    rcases hstop : done.result with ⟨error | found | _⟩ | _
    · simp [conclusion]
    · exact absurd hstop (hresult found)
    · simp [conclusion]
    · simp [conclusion]

end Session

/-! ## Consoles in memory -/

namespace Simulated

/-- What is done at a terminal, while there are lines to read. -/
def besideLines : Lift (StateM Terminal) Simulated where
  lift x := fun lines => do return (← x, lines)
  lift_pure _ := rfl
  lift_bind _ _ := rfl

theorem streams_console (folder : Folder) :
    (console folder).streams = besideLines.streams Terminal.streams := rfl

variable {α β : Type} {lines : List ByteArray} {terminal : Terminal}

/-- What is done first, and then what comes of it. -/
theorem bind_eq (x : Simulated α) (f : α → Simulated β) :
    (x >>= f) lines terminal =
      f (x lines terminal).1.1 (x lines terminal).1.2 (x lines terminal).2 := rfl

theorem lift_eq {x : StateM Terminal α} {a : α} {t : Terminal} (h : x terminal = (a, t)) :
    besideLines.lift x lines terminal = ((a, lines), t) := by
  show (((x terminal).1, lines), (x terminal).2) = _
  rw [h]

/-- At the console a run is what it is at the terminal, and reads no lines. -/
theorem run_eq (folder : Folder) (fuel : Nat) (source : String) (session : Session) :
    (Session.run (console folder).streams fuel source).run.run session lines terminal =
      (((((Session.outcome (Session.run Terminal.streams fuel source) session terminal).result,
        (Session.outcome (Session.run Terminal.streams fuel source) session terminal).session)),
        lines),
        (Session.outcome (Session.run Terminal.streams fuel source) session terminal).sinks) := by
  rw [streams_console, ← besideLines.act_run]
  rfl

end Simulated

namespace Command

open Simulated

variable (folder : Folder) (fuel : Nat) (session : Session) (lines : List ByteArray)
  {terminal : Terminal}

/-! ## One turn -/

theorem answer_writes (text : String) (hopen : Terminal.recording.IsOpen terminal) :
    ∃ t, answer (console folder) text lines terminal = ((0, lines), t) ∧
      Terminal.recording.Writes terminal (text ++ "\n").toUTF8 .empty t := by
  obtain ⟨t, hwrite, hwrites⟩ := Terminal.recording.write_output (text ++ "\n") hopen
  refine ⟨t, ?_, hwrites⟩
  show ((0, lines), (Terminal.streams.output.write (text ++ "\n") terminal).2) = _
  rw [hwrite]

theorem endWith_writes (code : UInt8) (report : String)
    (hopen : Terminal.recording.IsOpen terminal) :
    ∃ t, endWith (console folder) code report lines terminal = ((code, lines), t) ∧
      Terminal.recording.Writes terminal .empty (report ++ "\n").toUTF8 t := by
  obtain ⟨t, hwrite, hwrites⟩ := Terminal.recording.write_diagnostics (report ++ "\n") hopen
  refine ⟨t, ?_, hwrites⟩
  show ((code, lines), (Terminal.streams.diagnostics.write (report ++ "\n") terminal).2) = _
  rw [hwrite]

section

variable {line : ByteArray} {source : String} {done : Session.Outcome Terminal Status}

/-- A line that is text is run, and writes just what it writes by itself. -/
theorem runLine_of_text (htext : String.fromUTF8? line = some source)
    (hdone : Session.outcome (Session.run Terminal.streams fuel source) session {} = done)
    (hends : done.result ≠ .error .outOfFuel) (hopen : Terminal.recording.IsOpen terminal) :
    ∃ t, runLine (console folder) fuel session line lines terminal =
        ((.ok done.session, lines), t) ∧
      Terminal.recording.Writes terminal done.sinks.output.bytes done.sinks.diagnostics.bytes t := by
  have hempty : Terminal.recording.IsOpen {} := ⟨rfl, rfl, rfl⟩
  obtain ⟨hresult, hsession, output, diagnostics, hhere, halone⟩ :=
    Session.run_eq_run Terminal.recording fuel source session hopen hempty
  have hfailure := Session.run_ne_sink Terminal.recording fuel source session hempty
  rw [hdone] at hresult hsession halone hfailure
  have houtput : done.sinks.output.bytes = output :=
    halone.printed_eq.trans ByteArray.empty_append
  have hdiagnostics : done.sinks.diagnostics.bytes = diagnostics :=
    halone.reported_eq.trans ByteArray.empty_append
  obtain ⟨status, hok⟩ : ∃ status, done.result = .ok status := by
    rcases hstop : done.result with ⟨failure | _⟩ | status
    · exact absurd hstop (hfailure failure)
    · exact absurd hstop hends
    · exact ⟨status, rfl⟩
  refine ⟨_, ?_, houtput ▸ hdiagnostics ▸ hhere⟩
  have hdecode : Utf8.decode line = .ok source := by rw [Utf8.decode, htext]
  unfold runLine
  rw [hdecode]
  dsimp only
  rw [Simulated.bind_eq, Simulated.run_eq, hresult, hok, hsession]
  rfl

/-- The prompt is shown before anything is read. -/
theorem promptOnce_writes (hopen : Terminal.recording.IsOpen terminal) :
    ∃ t, Terminal.recording.Writes terminal "> ".toUTF8 .empty t ∧
      promptOnce (console folder) fuel session lines terminal =
        match lines with
        | [] => (answer (console folder) "" >>= fun code => pure (.error code)) [] t
        | line :: rest => runLine (console folder) fuel session line rest t := by
  obtain ⟨t, hwrite, hwrites⟩ := Terminal.recording.write_output "> " hopen
  obtain ⟨u, hflush, hflushed⟩ := Terminal.recording.flush_output hwrites.isOpen
  have hshown := hwrites.trans_output hflushed
  rw [ByteArray.append_empty] at hshown
  refine ⟨u, hshown, ?_⟩
  have hfirst : (console folder).streams.output.write "> " lines terminal =
      ((.ok (), lines), t) := lift_eq hwrite
  have hsecond : (console folder).streams.output.flush lines t = ((.ok (), lines), u) :=
    lift_eq hflush
  have hboth : (do
      (console folder).streams.output.write "> "
      (console folder).streams.output.flush : ExceptT SinkError Simulated Unit).run lines
        terminal = ((.ok (), lines), u) := by
    show ((console folder).streams.output.write "> " >>= ExceptT.bindCont fun _ =>
      (console folder).streams.output.flush : Simulated _) lines terminal = _
    rw [Simulated.bind_eq, hfirst]
    exact hsecond
  unfold promptOnce
  rw [Simulated.bind_eq, hboth]
  cases lines with
  | nil => rfl
  | cons line rest => rfl

theorem prompt_succ (turns : Nat) :
    prompt (console folder) fuel (turns + 1) session lines terminal =
      match promptOnce (console folder) fuel session lines terminal with
      | ((.error code, left), t) => ((code, left), t)
      | ((.ok after, left), t) => prompt (console folder) fuel turns after left t := by
  show (promptOnce (console folder) fuel session >>= _) lines terminal = _
  rw [Simulated.bind_eq]
  rcases promptOnce (console folder) fuel session lines terminal with ⟨⟨code | after, left⟩, t⟩ <;>
    rfl

/-- At the end of the input the line of the prompt is ended. -/
theorem prompt_nil (turns : Nat) (hopen : Terminal.recording.IsOpen terminal) :
    ∃ t, prompt (console folder) fuel (turns + 1) session [] terminal = ((0, []), t) ∧
      Terminal.recording.Writes terminal ("> ".toUTF8 ++ "\n".toUTF8) .empty t := by
  obtain ⟨t, hshown, honce⟩ := promptOnce_writes folder fuel session [] hopen
  obtain ⟨u, hanswer, hended⟩ := answer_writes folder [] "" hshown.isOpen
  refine ⟨u, ?_, hshown.trans_output hended⟩
  rw [prompt_succ, honce]
  dsimp only
  rw [Simulated.bind_eq, hanswer]
  rfl

/-- A line that is no text ends the prompt. -/
theorem prompt_malformed (turns : Nat) (htext : String.fromUTF8? line = none)
    (hopen : Terminal.recording.IsOpen terminal) :
    ∃ t, prompt (console folder) fuel (turns + 1) session (line :: lines) terminal =
        ((failureCode, lines), t) ∧
      Terminal.recording.Writes terminal "> ".toUTF8 (malformedLineText ++ "\n").toUTF8 t := by
  obtain ⟨t, hshown, honce⟩ := promptOnce_writes folder fuel session (line :: lines) hopen
  obtain ⟨u, hend, hreported⟩ :=
    endWith_writes folder lines failureCode malformedLineText hshown.isOpen
  have hwrites := hshown.trans hreported
  rw [ByteArray.append_empty, ByteArray.empty_append] at hwrites
  obtain ⟨fault, hdecode⟩ : ∃ fault, Utf8.decode line = .error fault := by
    rw [Utf8.decode, htext]
    exact ⟨_, rfl⟩
  refine ⟨u, ?_, hwrites⟩
  rw [prompt_succ, honce]
  dsimp only
  rw [runLine, hdecode]
  dsimp only
  rw [Simulated.bind_eq, hend]
  rfl

/-- After a line that is text the prompt goes on, whatever its run has come to. -/
theorem prompt_text (turns : Nat) (htext : String.fromUTF8? line = some source)
    (hdone : Session.outcome (Session.run Terminal.streams fuel source) session {} = done)
    (hends : done.result ≠ .error .outOfFuel) (hopen : Terminal.recording.IsOpen terminal) :
    ∃ t, prompt (console folder) fuel (turns + 1) session (line :: lines) terminal =
        prompt (console folder) fuel turns done.session lines t ∧
      Terminal.recording.Writes terminal ("> ".toUTF8 ++ done.sinks.output.bytes)
        done.sinks.diagnostics.bytes t := by
  obtain ⟨t, hshown, honce⟩ := promptOnce_writes folder fuel session (line :: lines) hopen
  obtain ⟨u, hline, hrun⟩ :=
    runLine_of_text folder fuel session lines htext hdone hends hshown.isOpen
  have hwrites := hshown.trans hrun
  rw [ByteArray.empty_append] at hwrites
  refine ⟨u, ?_, hwrites⟩
  rw [prompt_succ, honce]
  dsimp only
  rw [hline]

end

/-! ## All lines -/

/-- The texts of the pieces before the first that is no text. -/
def texts : List ByteArray → List String
  | [] => []
  | piece :: rest =>
      match String.fromUTF8? piece with
      | some text => text :: texts rest
      | none => []

/-- Whether all pieces are text. -/
def allText (pieces : List ByteArray) : Bool :=
  pieces.all fun piece => (String.fromUTF8? piece).isSome

/-- What comes of sources that are run one after another in a session, each over buffers of its
own. -/
def runs (fuel : Nat) : Session → List String → List (Session.Outcome Terminal Status)
  | _, [] => []
  | session, source :: rest =>
      let done := Session.outcome (Session.run Terminal.streams fuel source) session {}
      done :: runs fuel done.session rest

/-- Bytes one after another. -/
def concat : List ByteArray → ByteArray
  | [] => .empty
  | bytes :: rest => bytes ++ concat rest

/-- The prompt is shown before each of the runs, and before what comes after them. -/
def printed (done : List (Session.Outcome Terminal Status)) (last : ByteArray) : ByteArray :=
  concat (done.map fun one => "> ".toUTF8 ++ one.sinks.output.bytes) ++ ("> ".toUTF8 ++ last)

/-- What the runs report, and what is reported after them. -/
def reported (done : List (Session.Outcome Terminal Status)) (last : ByteArray) : ByteArray :=
  concat (done.map fun one => one.sinks.diagnostics.bytes) ++ last

theorem printed_nil (last : ByteArray) : printed [] last = "> ".toUTF8 ++ last :=
  ByteArray.empty_append

theorem printed_cons (one : Session.Outcome Terminal Status)
    (rest : List (Session.Outcome Terminal Status)) (last : ByteArray) :
    printed (one :: rest) last =
      "> ".toUTF8 ++ one.sinks.output.bytes ++ printed rest last :=
  ByteArray.append_assoc

theorem reported_nil (last : ByteArray) : reported [] last = last := ByteArray.empty_append

theorem reported_cons (one : Session.Outcome Terminal Status)
    (rest : List (Session.Outcome Terminal Status)) (last : ByteArray) :
    reported (one :: rest) last = one.sinks.diagnostics.bytes ++ reported rest last :=
  ByteArray.append_assoc

/-- Lines are run in order up to the first that is no text. -/
theorem prompt_lines (turns : Nat) (hturns : lines.length < turns)
    (hends : ∀ done ∈ runs fuel session (texts lines), done.result ≠ .error .outOfFuel)
    (hopen : Terminal.recording.IsOpen terminal) :
    ∃ left t, prompt (console folder) fuel turns session lines terminal =
        ((if allText lines then 0 else failureCode, left), t) ∧
      Terminal.recording.Writes terminal
        (printed (runs fuel session (texts lines)) (if allText lines then "\n".toUTF8 else .empty))
        (reported (runs fuel session (texts lines))
          (if allText lines then .empty else (malformedLineText ++ "\n").toUTF8)) t := by
  induction lines generalizing session terminal turns with
  | nil =>
      obtain ⟨turns, rfl⟩ : ∃ less, turns = less + 1 := ⟨turns - 1, by omega⟩
      obtain ⟨t, hprompt, hwrites⟩ := prompt_nil folder fuel session turns hopen
      refine ⟨[], t, hprompt, ?_⟩
      rw [texts, runs, printed_nil, reported_nil]
      exact hwrites
  | cons line rest ih =>
      obtain ⟨turns, rfl⟩ : ∃ less, turns = less + 1 := ⟨turns - 1, by omega⟩
      cases htext : String.fromUTF8? line with
      | none =>
          have hall : allText (line :: rest) = false := by simp [allText, htext]
          have htexts : texts (line :: rest) = [] := by rw [texts, htext]
          obtain ⟨t, hprompt, hwrites⟩ :=
            prompt_malformed folder fuel session rest turns htext hopen
          rw [hall, htexts, runs, printed_nil, reported_nil]
          refine ⟨rest, t, hprompt, ?_⟩
          show Terminal.recording.Writes terminal ("> ".toUTF8 ++ .empty) _ t
          rw [ByteArray.append_empty]
          exact hwrites
      | some source =>
          have hall : allText (line :: rest) = allText rest := by simp [allText, htext]
          have htexts : texts (line :: rest) = source :: texts rest := by rw [texts, htext]
          rw [htexts] at hends
          obtain ⟨hfirst, hothers⟩ := List.forall_mem_cons.1 hends
          obtain ⟨t, hprompt, hwrites⟩ :=
            prompt_text folder fuel session rest turns htext rfl hfirst hopen
          obtain ⟨left, u, hrest, hmore⟩ :=
            ih _ turns (by simpa using hturns) hothers hwrites.isOpen
          rw [hall, htexts, runs, printed_cons, reported_cons]
          exact ⟨left, u, hprompt.trans hrest, hwrites.trans hmore⟩

/-- Whatever comes of the lines before it, only a line that is no text ends the prompt with an exit
code other than zero; up to there each line is run in the session that the line before it has
left, and it writes what its run writes. -/
theorem prompt_runs_lines {input : ByteArray} {pieces : List ByteArray} {turns : Nat}
    (hsplit : LinesOf input.data.toList pieces) (hturns : pieces.length < turns)
    (hends : ∀ done ∈ runs fuel session (texts pieces), done.result ≠ .error .outOfFuel)
    (hopen : Terminal.recording.IsOpen terminal) :
    ∃ left t, prompt (console folder) fuel turns session (Lox.lines input) terminal =
        ((if allText pieces then 0 else 74, left), t) ∧
      Terminal.recording.Writes terminal
        (printed (runs fuel session (texts pieces))
          (if allText pieces then "\n".toUTF8 else .empty))
        (reported (runs fuel session (texts pieces))
          (if allText pieces then .empty else (malformedLineText ++ "\n").toUTF8)) t := by
  have hpieces := linesOf_iff.1 hsplit
  rw [← hpieces]
  exact prompt_lines folder fuel session pieces turns hturns hends hopen

/-! ### A name that is not declared, and a line that is no text -/

theorem scan_nameLine : scan "y;\n" =
    ⟨[⟨.identifier "y", "y", 1⟩, ⟨.symbol .semicolon, ";", 1⟩, ⟨.endOfSource, "", 2⟩], []⟩ := by
  have hname : pieces ['y', ';', '\n'] =
      Piece.token (.identifier "y") ['y'] :: pieces [';', '\n'] := pieces_cons 'y' _
  have hsymbol : pieces [';', '\n'] = Piece.token (.symbol .semicolon) [';'] :: pieces ['\n'] :=
    pieces_cons ';' _
  have hblank : pieces ['\n'] = [Piece.blank '\n'] :=
    (pieces_cons '\n' []).trans (congrArg _ pieces_nil)
  rw [hsymbol, hblank] at hname
  exact Scan.scan_of_pieces "y;\n" hname

theorem accepted_nameLine :
    Session.Accepted "y;\n" [.expression (.variable ⟨.identifier "y", "y", 1⟩)] := by
  constructor <;> rw [scan_nameLine]
  rfl

/-- The error of the first line is reported, and then that the second is no text. -/
theorem prompt_runs_lines_undeclared :
    let input : ByteArray := ⟨#[121, 59, 10, 255]⟩
    let pieces : List ByteArray := [⟨#[121, 59, 10]⟩, ⟨#[255]⟩]
    let error : RuntimeError := ⟨.undefinedVariable, ⟨.identifier "y", "y", 1⟩⟩
    LinesOf input.data.toList pieces ∧ pieces.length < 3 ∧ Terminal.recording.IsOpen {} ∧
      (∀ done ∈ runs 0 {} (texts pieces), done.result ≠ .error .outOfFuel) ∧
      ∃ left t, prompt (console []) 0 3 {} (Lox.lines input) {} = ((74, left), t) ∧
        t.output.bytes = "> ".toUTF8 ++ "> ".toUTF8 ∧
        t.diagnostics.bytes =
          (error.text ++ "\n").toUTF8 ++ (malformedLineText ++ "\n").toUTF8 := by
  intro input pieces error
  have hopen : Terminal.recording.IsOpen {} := ⟨rfl, rfl, rfl⟩
  have hlast : LinesOf [255] [⟨#[255]⟩] := @LinesOf.last #[255] (by decide) (by decide)
  have hsplit : LinesOf input.data.toList pieces :=
    @LinesOf.line #[121, 59] [255] _ (by decide) hlast
  have hturns : pieces.length < 3 := by decide
  have htexts : texts pieces = ["y;\n"] := by decide
  obtain ⟨t, hreport, hwrites⟩ := Terminal.recording.write_reports [error.text] hopen
  have hruns : runs 0 {} (texts pieces) =
      [⟨.ok .runtimeError, { hadRuntimeError := true }, t⟩] := by
    rw [htexts, runs, (Session.Ends.stopped accepted_nameLine rfl rfl hreport).eq, runs]
    rfl
  have hends : ∀ done ∈ runs 0 {} (texts pieces), done.result ≠ .error .outOfFuel := by
    rw [hruns]
    simp
  refine ⟨hsplit, hturns, hopen, hends, ?_⟩
  obtain ⟨left, u, hprompt, hall⟩ := prompt_runs_lines [] 0 {} hsplit hturns hends hopen
  have hbad : allText pieces = false := by decide
  have houtput : t.output.bytes = .empty := hwrites.printed_eq.trans ByteArray.append_empty
  have hdiagnostics : t.diagnostics.bytes = (error.text ++ "\n").toUTF8 :=
    (hwrites.reported_eq.trans ByteArray.empty_append).trans ByteArray.append_empty
  rw [hruns, hbad, printed_cons, printed_nil, reported_cons, reported_nil] at hall
  refine ⟨left, u, hprompt, ?_, ?_⟩
  · calc u.output.bytes
        = .empty ++ ("> ".toUTF8 ++ t.output.bytes ++ ("> ".toUTF8 ++ .empty)) := hall.printed_eq
      _ = "> ".toUTF8 ++ "> ".toUTF8 := by simp [houtput]
  · calc u.diagnostics.bytes
        = .empty ++ (t.diagnostics.bytes ++ (malformedLineText ++ "\n").toUTF8) :=
          hall.reported_eq
      _ = (error.text ++ "\n").toUTF8 ++ (malformedLineText ++ "\n").toUTF8 := by
          rw [hdiagnostics, ByteArray.empty_append]

end Command

end Lox
