import Lox.Proofs.Session.Ending

/-!
# The course of a session

A session runs sources one after another, each with its fuel and whatever came of those
before.  `calls` lists the runs, each with what it begins in; `after` and `sinksAfter` tell
what the last of them leaves.
-/

namespace Lox.Session

variable {σ : Type}

/-- A run of a source, with the session and the sinks that it begins in. -/
structure Call (σ : Type) where
  fuel : Nat
  source : String
  session : Session
  sinks : σ

namespace Call

/-- What comes of a run. -/
def outcome (streams : Streams (StateM σ)) (call : Call σ) : Outcome σ Status :=
  Session.outcome (run streams call.fuel call.source) call.session call.sinks

theorem ends (streams : Streams (StateM σ)) (call : Call σ) :
    Ends streams call.fuel call.source call.session call.sinks (call.outcome streams) :=
  ends_run streams call.fuel call.source call.session call.sinks

end Call

/-- The runs of sources one after another. -/
def calls (streams : Streams (StateM σ)) (session : Session) (s : σ) :
    List (Nat × String) → List (Call σ)
  | [] => []
  | (fuel, source) :: rest =>
      ⟨fuel, source, session, s⟩ ::
        calls streams (outcome (run streams fuel source) session s).session
          (outcome (run streams fuel source) session s).sinks rest

/-- The sinks after sources have been run. -/
def sinksAfter (streams : Streams (StateM σ)) (session : Session) (s : σ) :
    List (Nat × String) → σ
  | [] => s
  | (fuel, source) :: rest =>
      sinksAfter streams (outcome (run streams fuel source) session s).session
        (outcome (run streams fuel source) session s).sinks rest

variable (streams : Streams (StateM σ)) (runs more : List (Nat × String)) (session : Session)
  (s : σ)

theorem after_append : after streams session s (runs ++ more) =
    after streams (after streams session s runs) (sinksAfter streams session s runs) more := by
  induction runs generalizing session s with
  | nil => rfl
  | cons run rest ih => exact ih _ _

/-- The run that comes after others. -/
def next (fuel : Nat) (source : String) : Call σ :=
  ⟨fuel, source, after streams session s runs, sinksAfter streams session s runs⟩

theorem after_concat (fuel : Nat) (source : String) :
    after streams session s (runs ++ [(fuel, source)]) =
      ((next streams runs session s fuel source).outcome streams).session :=
  after_append streams runs [(fuel, source)] session s

end Lox.Session
