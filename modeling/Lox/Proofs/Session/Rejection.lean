import Lox.Proofs.Session.Flags
import Lox.Proofs.Session.ReportLines

/-!
# Rejected sources leave no trace

A source with mistakes is not run, so a session over sinks that never fail does with it just as
well as without it: leaving the mistaken sources out changes neither what comes of the others
nor the variables in the end.  All that a mistaken source does is to have its mistakes reported:
there is one report for each, and a newline ends it.  These reports are as many lines, too, if
none of the mistakes is at a string that spans lines, and only then.
-/

namespace Lox.Session

variable {σ : Type} {streams : Streams (StateM σ)}

/-- The sources without mistakes. -/
def acceptable (runs : List (Nat × String)) : List (Nat × String) :=
  runs.filter fun run => ¬ Mistaken run.2

namespace Call

/-- Two runs of one source that come to the same and write the same. -/
structure Same (streams : Streams (StateM σ)) (record : Record σ) (call call' : Call σ) : Prop where
  fuel_eq : call.fuel = call'.fuel
  source_eq : call.source = call'.source
  result_eq : (call.outcome streams).result = (call'.outcome streams).result
  writes : ∃ output diagnostics,
    record.Writes call.sinks output diagnostics (call.outcome streams).sinks ∧
    record.Writes call'.sinks output diagnostics (call'.outcome streams).sinks

/-- The run writes nothing but lines, one for each mistake of its source. -/
def WritesLines (streams : Streams (StateM σ)) (record : Record σ) (call : Call σ) : Prop :=
  ∃ lines : List String, lines.length = (mistakeReports call.source).length ∧
    (∀ line ∈ lines, '\n' ∉ line.toList) ∧
    record.Writes call.sinks .empty (utf8Reports lines) (call.outcome streams).sinks

/-- The run does nothing but report the mistakes of its source, one after another, each report ended
by a newline.  That makes a line of each, unless one of them quotes a string that spans lines. -/
structure Rejected (streams : Streams (StateM σ)) (record : Record σ) (call : Call σ) : Prop where
  result_eq : (call.outcome streams).result = .ok .syntaxError
  environment_eq : (call.outcome streams).session.environment = call.session.environment
  writes : record.Writes call.sinks .empty (utf8Reports (mistakeReports call.source))
    (call.outcome streams).sinks
  writesLines_iff : call.WritesLines streams record ↔ ¬ QuotesLines call.source

end Call

/-! ## One run -/

/-- What was known of the source before is forgotten. -/
theorem outcome_run_hadError (streams : Streams (StateM σ)) (fuel : Nat) (source : String)
    (session : Session) (known : Bool) (s : σ) :
    outcome (run streams fuel source) { session with hadError := known } s =
      outcome (run streams fuel source) session s := by
  rw [outcome_run, outcome_run]

variable (record : Recording streams)

/-- Reports that have been written are lines if no string that spans lines is quoted in them, and
nothing else that is as many lines could have been written. -/
theorem writesLines_iff_of_writes {call : Call σ}
    (hwrites : record.Writes call.sinks .empty (utf8Reports (mistakeReports call.source))
      (call.outcome streams).sinks) :
    call.WritesLines streams record.toRecord ↔ ¬ QuotesLines call.source := by
  rw [← notMem_newline_mistakeReports_iff]
  constructor
  · rintro ⟨lines, hlength, hlines, hwritten⟩
    exact notMem_newline_of_utf8Reports_eq (hwritten.diagnostics_eq hwrites) hlength hlines
  · intro hreports
    exact ⟨_, rfl, hreports, hwrites⟩

theorem rejected_of_mistaken {call : Call σ} (hopen : record.IsOpen call.sinks)
    (hmistaken : Mistaken call.source) : call.Rejected streams record.toRecord := by
  obtain ⟨t, hrun, hwrites⟩ := run_of_mistaken record call.fuel call.session hmistaken hopen
  have houtcome : call.outcome streams = _ := hrun
  have hreported : record.Writes call.sinks .empty (utf8Reports (mistakeReports call.source))
      (call.outcome streams).sinks := by rwa [houtcome]
  refine ⟨?_, ?_, hreported, writesLines_iff_of_writes record hreported⟩
  · rw [houtcome]
  · rw [houtcome]

/-! ## Any number of runs -/

/-- Some runs of a session leave no trace in the others: without them, and whatever else the
sinks may have held, the others come to the same. -/
structure LeavesNoTrace (streams : Streams (StateM σ)) (record : Record σ) (session : Session)
    (s : σ) (runs : List (Nat × String)) (session' : Session) (s' : σ) : Prop where
  same : List.Forall₂ (Call.Same streams record)
    ((calls streams session s runs).filter fun call => ¬ Mistaken call.source)
    (calls streams session' s' (acceptable runs))
  environment_eq : (after streams session s runs).environment =
    (after streams session' s' (acceptable runs)).environment
  rejected : ∀ call ∈ calls streams session s runs, Mistaken call.source →
    call.Rejected streams record

theorem leavesNoTrace_of_isOpen (runs : List (Nat × String)) (session : Session) (known : Bool)
    {s s' : σ} (hopen : record.IsOpen s) (hopen' : record.IsOpen s') :
    LeavesNoTrace streams record.toRecord { session with hadError := known } s runs session s' := by
  induction runs generalizing session known s s' with
  | nil => exact ⟨.nil, rfl, by simp [calls]⟩
  | cons run rest ih =>
      obtain ⟨fuel, source⟩ := run
      by_cases hmistaken : Mistaken source
      · -- the run is left out, and the others go on from where it has left the session
        obtain ⟨t, hrun, hwrites⟩ :=
          run_of_mistaken record fuel { session with hadError := known } hmistaken hopen
        have hrest := ih session true hwrites.isOpen hopen'
        have hdropped : acceptable ((fuel, source) :: rest) = acceptable rest :=
          List.filter_cons_of_neg (by simpa using hmistaken)
        constructor
        · rw [hdropped, calls, hrun, List.filter_cons_of_neg (by simpa using hmistaken)]
          exact hrest.same
        · rw [hdropped, after, hrun]
          exact hrest.environment_eq
        · rw [calls, hrun, List.forall_mem_cons]
          exact ⟨fun _ => rejected_of_mistaken record hopen hmistaken, hrest.rejected⟩
      · obtain ⟨hresult, hsession, output, diagnostics, hwrites, hwrites'⟩ :=
          run_eq_run record fuel source session hopen hopen'
        have hrun := outcome_run_hadError streams fuel source session known s
        have hrest := ih (outcome (Session.run streams fuel source) session s').session
          (outcome (Session.run streams fuel source) session s').session.hadError
          hwrites.isOpen hwrites'.isOpen
        have hkept : acceptable ((fuel, source) :: rest) = (fuel, source) :: acceptable rest :=
          List.filter_cons_of_pos (by simpa using hmistaken)
        constructor
        · rw [hkept, calls, calls, hrun, hsession,
            List.filter_cons_of_pos (by simpa using hmistaken)]
          refine .cons ⟨rfl, rfl, ?_, output, diagnostics, ?_, hwrites'⟩ hrest.same
          · unfold Call.outcome
            rw [hrun]
            exact hresult
          · unfold Call.outcome
            rw [hrun]
            exact hwrites
        · rw [hkept, after, after, hrun, hsession]
          exact hrest.environment_eq
        · rw [calls, hrun, hsession, List.forall_mem_cons]
          exact ⟨fun h => absurd h hmistaken, hrest.rejected⟩

/-- Leaving out the mistaken sources changes neither the results and the output of the other
runs nor the variables in the end, and a run of a mistaken source does nothing but report its
mistakes. -/
theorem rejected_leave_no_trace (session : Session) {s : σ} (hopen : record.IsOpen s)
    (runs : List (Nat × String)) :
    List.Forall₂ (Call.Same streams record.toRecord)
        ((calls streams session s runs).filter fun call => ¬ Mistaken call.source)
        (calls streams session s (acceptable runs)) ∧
      (after streams session s runs).environment =
        (after streams session s (acceptable runs)).environment ∧
      ∀ call ∈ calls streams session s runs, Mistaken call.source →
        call.Rejected streams record.toRecord := by
  have htrace := leavesNoTrace_of_isOpen record runs session session.hadError hopen hopen
  exact ⟨htrace.same, htrace.environment_eq, htrace.rejected⟩

/-- A stray character in a session at a terminal. -/
theorem rejected_leave_no_trace_stray :
    Terminal.recording.IsOpen {} ∧
      (after Terminal.streams {} {} [(0, "@"), (0, "")]).environment =
        (after Terminal.streams {} {} (acceptable [(0, "@"), (0, "")])).environment ∧
      Call.Rejected Terminal.streams Terminal.recording.toRecord ⟨0, "@", {}, {}⟩ := by
  have hopen : Terminal.recording.IsOpen {} := ⟨rfl, rfl, rfl⟩
  have hmistaken : Mistaken "@" := .inl (by simp [errors_scan_stray])
  obtain ⟨_, henvironment, hrejected⟩ :=
    rejected_leave_no_trace Terminal.recording {} hopen [(0, "@"), (0, "")]
  exact ⟨hopen, henvironment, hrejected _ List.mem_cons_self hmistaken⟩

/-! ### A report of two lines -/

theorem scan_stringOverLines : scan "1 \"a\nb\";" =
    ⟨[⟨.number (Number.ofDigits ['1'] []), "1", 1⟩, ⟨.string "a\nb", "\"a\nb\"", 2⟩,
      ⟨.symbol .semicolon, ";", 2⟩, ⟨.endOfSource, "", 2⟩], []⟩ := by
  have hnumber : pieces ['1', ' ', '"', 'a', '\n', 'b', '"', ';'] =
      .token (.number (Number.ofDigits ['1'] [])) ['1'] ::
        pieces [' ', '"', 'a', '\n', 'b', '"', ';'] := pieces_cons '1' _
  have hblank : pieces [' ', '"', 'a', '\n', 'b', '"', ';'] =
      .blank ' ' :: pieces ['"', 'a', '\n', 'b', '"', ';'] := pieces_cons ' ' _
  have hstring : pieces ['"', 'a', '\n', 'b', '"', ';'] =
      .token (.string "a\nb") ['"', 'a', '\n', 'b', '"'] :: pieces [';'] := pieces_cons '"' _
  rw [hblank, hstring, pieces_semicolon] at hnumber
  exact Scan.scan_of_pieces "1 \"a\nb\";" hnumber

/-- An error at a string that spans lines is not reported on a line: its report quotes the string
as it stands in the source. -/
theorem not_writesLines_string :
    Terminal.recording.IsOpen {} ∧ Mistaken "1 \"a\nb\";" ∧
      mistakeReports "1 \"a\nb\";" =
        ["[line 2] error at '\"a\nb\"': Expect ';' after expression."] ∧
      ¬ Call.WritesLines Terminal.streams Terminal.recording.toRecord
        ⟨0, "1 \"a\nb\";", {}, {}⟩ := by
  have hopen : Terminal.recording.IsOpen {} := ⟨rfl, rfl, rfl⟩
  have hparse : parse (scan "1 \"a\nb\";").tokens =
      .error [⟨.unendedExpression, ⟨.string "a\nb", "\"a\nb\"", 2⟩⟩] := by
    rw [scan_stringOverLines]
    rfl
  have hmistaken : Mistaken "1 \"a\nb\";" := .inr ⟨_, hparse⟩
  have hquotes : QuotesLines "1 \"a\nb\";" := ⟨_, hparse, _, List.mem_singleton_self _, rfl⟩
  refine ⟨hopen, hmistaken, ?_, ?_⟩
  · rw [mistakeReports_of_error (by rw [scan_stringOverLines]) hparse]
    rfl
  · intro hlines
    have hrejected : Call.Rejected Terminal.streams Terminal.recording.toRecord
        ⟨0, "1 \"a\nb\";", {}, {}⟩ := rejected_of_mistaken Terminal.recording hopen hmistaken
    exact hrejected.writesLines_iff.1 hlines hquotes

end Lox.Session
