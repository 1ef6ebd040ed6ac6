import Lox.Proofs.Session.Calls
import Lox.Proofs.Sink.Recording

/-!
# The flags of a session

One flag is to tell whether the last source had a mistake, the other whether any source has
stopped at an error of evaluation.  They change only once the reports have been written, so
what they tell is what has been reported: `flags_after` says so of any sources, run one after
another over sinks that may fail anywhere.  While the reports are never lost the flags are
faithful (`faithful_of_reporting`), and over a sink that loses one they are not.
-/

namespace Lox.Session

variable {σ : Type} {streams : Streams (StateM σ)}

/-! ## What a run reports -/

namespace Call

variable {call : Call σ}

/-- The run writes enough reports for its source to be known as mistaken: those of the scan,
and if there are none of these, those of the grammar. -/
def ReportsMistakes (streams : Streams (StateM σ)) (call : Call σ) : Prop :=
  ∃ t, streams.diagnostics.writeLines (scanReports call.source) call.sinks = (.ok (), t) ∧
    ((scan call.source).errors ≠ [] ∨
      ∃ u, streams.diagnostics.writeLines (syntaxReports call.source) t = (.ok (), u))

/-- The run stops at an error of evaluation, which leaves the sinks so. -/
def StopsAt (streams : Streams (StateM σ)) (call : Call σ) (error : RuntimeError) (u : σ) : Prop :=
  ∃ program env t, Accepted call.source program ∧
    writeTrees streams call.session.printTrees program call.sinks = (.ok (), t) ∧
    execution streams call.fuel program call.session t = ⟨.error (.runtime error), env, u⟩

/-- The run stops at an error of evaluation. -/
def Stops (streams : Streams (StateM σ)) (call : Call σ) : Prop :=
  ∃ error u, call.StopsAt streams error u

/-- The run stops at an error of evaluation and writes the report of it. -/
def ReportsStop (streams : Streams (StateM σ)) (call : Call σ) : Prop :=
  ∃ error u v, call.StopsAt streams error u ∧
    streams.diagnostics.writeLines [error.text] u = (.ok (), v)

/-- After a run it is known that its source is mistaken if the run has reported it. -/
theorem hadError_iff : (call.outcome streams).session.hadError = true ↔
    Mistaken call.source ∧ call.ReportsMistakes streams := by
  have hends := call.ends streams
  generalize call.outcome streams = result at hends ⊢
  cases hends with
  | scanLost hscan =>
      have hlost : ¬ call.ReportsMistakes streams := by
        intro ⟨t, hreports, _⟩
        rw [hscan] at hreports
        cases hreports
      simp [hlost]
  | @syntaxLost errors failure t u hscan hparse hgrammar =>
      have hmistaken : Mistaken call.source := .inr ⟨errors, hparse⟩
      have hreports : call.ReportsMistakes streams ↔ (scan call.source).errors ≠ [] := by
        constructor
        · intro ⟨t', hscan', hknown⟩
          rw [hscan] at hscan'
          cases hscan'
          refine hknown.resolve_right ?_
          intro ⟨u', hgrammar'⟩
          rw [hgrammar] at hgrammar'
          cases hgrammar'
        · exact fun herrors => ⟨t, hscan, .inl herrors⟩
      simp [hmistaken, hreports]
  | rejected hscan hmistaken hgrammar =>
      have hreports : call.ReportsMistakes streams := ⟨_, hscan, .inr ⟨_, hgrammar⟩⟩
      simp [hmistaken, hreports]
  | treesLost haccepted | finished haccepted | stopped haccepted | stopLost haccepted
  | outputLost haccepted | outOfFuel haccepted => simp [haccepted.not_mistaken]

/-- What a run has reported of an error of evaluation, its session knows. -/
theorem ReportsStop.hadRuntimeError (h : call.ReportsStop streams) :
    (call.outcome streams).session.hadRuntimeError = true := by
  obtain ⟨error, u, v, ⟨program, env, t, haccepted, htrees, hexecution⟩, hreport⟩ := h
  have hrun : call.outcome streams = _ := (Ends.stopped haccepted htrees hexecution hreport).eq
  rw [hrun]

/-- After a run it is known that one has stopped at an error of evaluation if this was known
before or the run has reported it. -/
theorem hadRuntimeError_iff : (call.outcome streams).session.hadRuntimeError = true ↔
    call.session.hadRuntimeError = true ∨ call.ReportsStop streams := by
  have hends := call.ends streams
  constructor
  · intro hflag
    generalize call.outcome streams = result at hends hflag
    cases hends with
    | stopped haccepted htrees hexecution hreport =>
        exact .inr ⟨_, _, _, ⟨_, _, _, haccepted, htrees, hexecution⟩, hreport⟩
    | _ => exact .inl hflag
  · rintro (hflag | hreports)
    · generalize call.outcome streams = result at hends ⊢
      cases hends with
      | stopped => rfl
      | _ => exact hflag
    · exact hreports.hadRuntimeError

end Call

/-! ## What a session knows -/

theorem hadRuntimeError_after_iff (runs : List (Nat × String)) (session : Session) (s : σ) :
    (after streams session s runs).hadRuntimeError = true ↔ session.hadRuntimeError = true ∨
      ∃ call ∈ calls streams session s runs, call.ReportsStop streams := by
  induction runs generalizing session s with
  | nil => simp [after, calls]
  | cons run rest ih =>
      obtain ⟨fuel, source⟩ := run
      have hfirst := @Call.hadRuntimeError_iff _ streams ⟨fuel, source, session, s⟩
      have hrest := ih (outcome (Session.run streams fuel source) session s).session
        (outcome (Session.run streams fuel source) session s).sinks
      unfold after calls
      rw [hrest, List.exists_mem_cons_iff, ← or_assoc]
      exact or_congr_left hfirst

/-- After any sources, the first flag tells whether the last one is mistaken and this has been
reported, and the second whether any has stopped at an error of evaluation and this has been
reported, or was known before. -/
theorem flags_after (streams : Streams (StateM σ)) (session : Session) (s : σ)
    (runs : List (Nat × String)) (fuel : Nat) (source : String) :
    ((after streams session s (runs ++ [(fuel, source)])).hadError = true ↔
      Mistaken source ∧ (next streams runs session s fuel source).ReportsMistakes streams) ∧
    ((after streams session s (runs ++ [(fuel, source)])).hadRuntimeError = true ↔
      session.hadRuntimeError = true ∨
        ∃ call ∈ calls streams session s (runs ++ [(fuel, source)]), call.ReportsStop streams) := by
  refine ⟨?_, hadRuntimeError_after_iff _ _ _⟩
  rw [after_concat]
  exact Call.hadError_iff

/-! ## Faithful flags -/

/-- After any sources, the flags tell exactly whether the last one is mistaken and whether any
has stopped at an error of evaluation. -/
def Faithful (streams : Streams (StateM σ)) : Prop :=
  ∀ (session : Session) (s : σ) (runs : List (Nat × String)) (fuel : Nat) (source : String),
    ((after streams session s (runs ++ [(fuel, source)])).hadError = true ↔ Mistaken source) ∧
    ((after streams session s (runs ++ [(fuel, source)])).hadRuntimeError = true ↔
      session.hadRuntimeError = true ∨
        ∃ call ∈ calls streams session s (runs ++ [(fuel, source)]), call.Stops streams)

/-- Reports are never lost. -/
def Reporting (streams : Streams (StateM σ)) : Prop :=
  ∀ reports s, ∃ t, streams.diagnostics.writeLines reports s = (.ok (), t)

theorem faithful_of_reporting (h : Reporting streams) : Faithful streams := by
  intro session s runs fuel source
  have hmistakes : ∀ call : Call σ, call.ReportsMistakes streams := by
    intro call
    obtain ⟨t, hscan⟩ := h (scanReports call.source) call.sinks
    exact ⟨t, hscan, .inr (h (syntaxReports call.source) t)⟩
  have hstops : ∀ call : Call σ, call.ReportsStop streams ↔ call.Stops streams := by
    intro call
    constructor
    · intro ⟨error, u, v, hstop, _⟩
      exact ⟨error, u, hstop⟩
    · intro ⟨error, u, hstop⟩
      obtain ⟨v, hreport⟩ := h [error.text] u
      exact ⟨error, u, v, hstop, hreport⟩
  constructor
  · rw [after_concat, Call.hadError_iff]
    exact and_iff_left (hmistakes _)
  · rw [hadRuntimeError_after_iff]
    simp only [hstops]

/-! ### A lost report -/

/-- A terminal with no room for reports. -/
def noRoom : Terminal := { diagnostics := { capacity := some 0 } }

theorem writeLine_noRoom (text : String) :
    Terminal.streams.diagnostics.writeLine text noRoom = (.error .full, noRoom) := by
  simp [Terminal.streams, Sink.writeLine, Buffer.write, noRoom]

theorem errors_scan_stray : (scan "@").errors = [⟨1, .unexpectedCharacter⟩] := by
  have hpieces : pieces ['@'] = [.unexpected '@'] := by
    rw [pieces_cons]
    exact congrArg _ pieces_nil
  simp only [scan, Scan.Progress.run_eq_foldl]
  rw [show Scan.dropByteOrderMark "@".toList = ['@'] from rfl, hpieces]
  rfl

/-- A source is known as mistaken only once the report of it has been written. -/
theorem not_faithful_terminal : ¬ Faithful Terminal.streams := by
  intro hfaithful
  have hmistaken : Mistaken "@" := .inl (by simp [errors_scan_stray])
  have hlost : Terminal.streams.diagnostics.writeLines (scanReports "@") noRoom =
      (.error .full, noRoom) := by
    unfold scanReports
    rw [errors_scan_stray, List.map_cons, Sink.writeLines_cons, writeLine_noRoom]
  have hrun : outcome (run Terminal.streams 0 "@") {} noRoom = _ := (Ends.scanLost hlost).eq
  have hflag := (hfaithful {} noRoom [] 0 "@").1.2 hmistaken
  rw [List.nil_append] at hflag
  unfold after at hflag
  rw [hrun] at hflag
  cases hflag

end Lox.Session
