import Lox.Proofs.Execution.Closure
import Lox.Proofs.Execution.FrameLaw
import Lox.Proofs.Execution.Fuel
import Lox.Sink.Buffer

/-!
# A full sink only truncates

The same program is executed twice, over a buffer without a limit and over one with room for so
many bytes.  As long as what is written fits, the two executions do the same.  At the first text
that does not fit the second one stops, with the failure of the buffer and whatever the first
one does from there on; it has written the first bytes of what the first one writes, and writes
nothing more on its way out of loops and frames.
-/

namespace Lox

/-- A buffer without a limit. -/
def Buffer.unlimited (bytes : ByteArray) : Buffer := { bytes := bytes }

/-- A buffer with room for so many bytes in all. -/
def Buffer.limited (room : Nat) (failure : SinkError) (bytes : ByteArray) : Buffer :=
  { bytes := bytes, capacity := some room, whenFull := failure }

variable {α β : Type} {room : Nat} {failure : SinkError}

namespace Buffer

/-- There are no more bytes than all. -/
theorem extract_eq_self {bytes : ByteArray} (h : bytes.size ≤ room) :
    bytes.extract 0 room = bytes := by
  have hempty : bytes.extract bytes.size room = .empty :=
    ByteArray.extract_eq_empty_iff.2 (Nat.min_le_right _ _)
  rw [ByteArray.extract_eq_extract_append_extract bytes.size (Nat.zero_le _) h, hempty,
    ByteArray.append_empty, ByteArray.extract_zero_size]

/-- What is appended beyond the first bytes does not change these. -/
theorem extract_append_of_le {bytes : ByteArray} (h : room ≤ bytes.size) (output : ByteArray) :
    (bytes ++ output).extract 0 room = bytes.extract 0 room := by
  have hempty : output.extract 0 (room - bytes.size) = .empty :=
    ByteArray.extract_eq_empty_iff.2 (by omega)
  rw [ByteArray.extract_append, Nat.zero_sub, hempty, ByteArray.append_empty]

theorem sink_writeLine_unlimited (bytes : ByteArray) (text : String) :
    sink.writeLine text (unlimited bytes) =
      (.ok (), unlimited (bytes ++ (text ++ "\n").toUTF8)) := rfl

theorem sink_writeLine_of_fits {bytes : ByteArray} {text : String}
    (hroom : bytes.size ≤ room) (hfits : (bytes ++ (text ++ "\n").toUTF8).size ≤ room) :
    sink.writeLine text (limited room failure bytes) =
      (.ok (), limited room failure (bytes ++ (text ++ "\n").toUTF8)) := by
  rw [ByteArray.size_append] at hfits
  exact if_pos (by omega)

/-- Of a text that does not fit, the first bytes are taken. -/
theorem sink_writeLine_of_not_fits {bytes : ByteArray} {text : String}
    (hroom : bytes.size ≤ room) (hfits : room < (bytes ++ (text ++ "\n").toUTF8).size) :
    sink.writeLine text (limited room failure bytes) =
      (.error failure,
        limited room failure ((bytes ++ (text ++ "\n").toUTF8).extract 0 room)) := by
  have hextract : (bytes ++ (text ++ "\n").toUTF8).extract 0 room =
      bytes ++ (text ++ "\n").toUTF8.extract 0 (room - bytes.size) := by
    rw [ByteArray.extract_append, extract_eq_self hroom, Nat.zero_sub]
  rw [ByteArray.size_append] at hfits
  rw [hextract]
  exact if_neg (by omega)

end Buffer

/-- What comes of an execution over a buffer without a limit, and of the same over a buffer with
room for so many bytes. -/
inductive Outcome.Truncated (room : Nat) (failure : SinkError) :
    (whole cut : Outcome Buffer α) → Prop
  /-- All has fitted. -/
  | fits {result : Except Stop α} {env : Environment} {bytes : ByteArray} :
      bytes.size ≤ room →
        Truncated room failure ⟨result, env, .unlimited bytes⟩
          ⟨result, env, .limited room failure bytes⟩
  /-- Not all has fitted, and the second execution has stopped there. -/
  | stopped {result : Except Stop α} {env env' : Environment} {bytes : ByteArray} :
      room < bytes.size →
        Truncated room failure ⟨result, env, .unlimited bytes⟩
          ⟨.error (.output failure), env', .limited room failure (bytes.extract 0 room)⟩

namespace Outcome.Truncated

variable {whole cut : Outcome Buffer α}

theorem eq_of_le (h : whole.Truncated room failure cut) (hroom : whole.sink.bytes.size ≤ room) :
    cut.result = whole.result ∧ cut.env = whole.env ∧ cut.sink.bytes = whole.sink.bytes := by
  cases h with
  | fits _ => exact ⟨rfl, rfl, rfl⟩
  | stopped hmore => exact absurd hroom hmore.not_ge

theorem stops_of_lt (h : whole.Truncated room failure cut) (hroom : room < whole.sink.bytes.size) :
    cut.result = .error (.output failure) ∧
      cut.sink.bytes = whole.sink.bytes.extract 0 room := by
  cases h with
  | fits hle => exact absurd hroom hle.not_gt
  | stopped _ => exact ⟨rfl, rfl⟩

end Outcome.Truncated

namespace Exec

/-- Over a buffer without a limit the execution only appends, and over one with a limit it does
the same as long as that fits. -/
structure Truncates (room : Nat) (failure : SinkError) (exec : Exec (StateM Buffer) α) : Prop where
  appends (env : Environment) (bytes : ByteArray) :
    ∃ output, (outcome exec env (.unlimited bytes)).sink = .unlimited (bytes ++ output)
  truncated (env : Environment) {bytes : ByteArray} : bytes.size ≤ room →
    (outcome exec env (.unlimited bytes)).Truncated room failure
      (outcome exec env (.limited room failure bytes))

/-- An execution that leaves the sink alone, and does the same over every one, truncates nothing. -/
theorem truncates_of_silent {exec : Exec (StateM Buffer) α}
    (h : ∀ env s t, outcome exec env s =
      ⟨(outcome exec env t).result, (outcome exec env t).env, s⟩) :
    Truncates room failure exec where
  appends env bytes := by
    refine ⟨.empty, ?_⟩
    rw [h env _ (.unlimited bytes), ByteArray.append_empty]
  truncated env bytes hroom := by
    rw [h env (.limited room failure bytes) (.unlimited bytes),
      h env (.unlimited bytes) (.unlimited bytes)]
    exact .fits hroom

theorem truncates_ofEval (eval : Eval α) :
    Truncates room failure (ofEval eval : Exec (StateM Buffer) α) := by
  refine truncates_of_silent fun env s t => ?_
  rw [outcome_ofEval, outcome_ofEval]
  rcases Eval.outcome eval env with ⟨error | a, after⟩ <;> rfl

/-- Once the limited execution has stopped, the other one can only append to what is cut off. -/
theorem truncates_bind {exec : Exec (StateM Buffer) α} {next : α → Exec (StateM Buffer) β}
    (h : Truncates room failure exec) (hnext : ∀ a, Truncates room failure (next a)) :
    Truncates room failure (exec >>= next) where
  appends env bytes := by
    obtain ⟨output, hsink⟩ := h.appends env bytes
    rw [outcome_bind]
    generalize outcome exec env (.unlimited bytes) = first at hsink
    obtain ⟨result, mid, t⟩ := first
    obtain rfl : t = .unlimited (bytes ++ output) := hsink
    cases result with
    | error stop => exact ⟨output, rfl⟩
    | ok a =>
        obtain ⟨more, hmore⟩ := (hnext a).appends mid (bytes ++ output)
        exact ⟨output ++ more, by rw [← ByteArray.append_assoc]; exact hmore⟩
  truncated env bytes hroom := by
    have hfirst := h.truncated env hroom
    rw [outcome_bind, outcome_bind]
    generalize outcome exec env (.unlimited bytes) = whole at hfirst
    generalize outcome exec env (.limited room failure bytes) = cut at hfirst
    cases hfirst with
    | @fits result mid written hroom =>
        cases result with
        | error stop => exact .fits hroom
        | ok a => exact (hnext a).truncated mid hroom
    | @stopped result mid mid' written hmore =>
        cases result with
        | error stop => exact .stopped hmore
        | ok a =>
            -- only the execution without a limit goes on, beyond what has been cut off
            obtain ⟨output, hsink⟩ := (hnext a).appends mid written
            dsimp only
            generalize outcome (next a) mid (.unlimited written) = second at hsink
            obtain ⟨result, after, t⟩ := second
            obtain rfl : t = .unlimited (written ++ output) := hsink
            rw [← Buffer.extract_append_of_le hmore.le output]
            exact .stopped (by rw [ByteArray.size_append]; omega)

theorem truncates_writeLine (text : String) :
    Truncates room failure (ofSink (Buffer.sink.writeLine text)) where
  appends env bytes := by
    rw [outcome_ofSink, Buffer.sink_writeLine_unlimited]
    exact ⟨_, rfl⟩
  truncated env bytes hroom := by
    rw [outcome_ofSink, outcome_ofSink, Buffer.sink_writeLine_unlimited]
    rcases Nat.lt_or_ge room (bytes ++ (text ++ "\n").toUTF8).size with hmore | hfits
    · rw [Buffer.sink_writeLine_of_not_fits hroom hmore]
      exact .stopped hmore
    · rw [Buffer.sink_writeLine_of_fits hroom hfits]
      exact .fits hfits

theorem truncates_flush : Truncates room failure (ofSink Buffer.sink.flush) where
  appends env bytes := ⟨.empty, by rw [ByteArray.append_empty]; rfl⟩
  truncated env _ hroom := .fits hroom

/-- The frames are closed in both executions. -/
theorem truncates_inFrame {exec : Exec (StateM Buffer) Unit} (h : Truncates room failure exec) :
    Truncates room failure (inFrame exec) where
  appends env bytes := h.appends env.enter bytes
  truncated env bytes hroom := by
    have hbody := h.truncated env.enter hroom
    rw [outcome_inFrame, outcome_inFrame]
    generalize outcome exec env.enter (.unlimited bytes) = whole at hbody
    generalize outcome exec env.enter (.limited room failure bytes) = cut at hbody
    cases hbody with
    | fits hroom => exact .fits hroom
    | stopped hmore => exact .stopped hmore

theorem closed_truncates : Closed Buffer.sink fun _ exec => Truncates room failure exec where
  pure _ := truncates_of_silent fun _ _ _ => rfl
  outOfFuel := truncates_of_silent fun _ _ _ => rfl
  bind := truncates_bind
  eval expr := truncates_ofEval expr.eval
  define _ _ := truncates_of_silent fun _ _ _ => rfl
  writeLine := truncates_writeLine
  inFrame := truncates_inFrame

theorem truncates_interpret (fuel : Nat) (program : List Stmt) :
    Truncates room failure (Stmt.interpret Buffer.sink fuel program) :=
  truncates_bind (closed_truncates.executeAll fuel program) fun _ => truncates_flush

end Exec

namespace Stmt

open Exec

/-- If all that a program writes fits into the room of a sink, the sink makes no difference.  If
ever more is written than fits, the program stops with the failure of the sink, whether or not
it would come to an end otherwise.  The sink then holds the first bytes of what is written, and
every frame has been closed. -/
theorem full_sink_truncates (program : List Stmt) (env : Environment) (room : Nat)
    (failure : SinkError) (fuel : Nat) :
    let whole := outcome (interpret Buffer.sink fuel program) env (.unlimited .empty)
    let cut more :=
      outcome (interpret Buffer.sink more program) env (.limited room failure .empty)
    (whole.sink.bytes.size ≤ room →
      (cut fuel).result = whole.result ∧ (cut fuel).env = whole.env ∧
        (cut fuel).sink.bytes = whole.sink.bytes) ∧
    (room < whole.sink.bytes.size → ∀ more ≥ fuel,
      (cut more).result = .error (.output failure) ∧
        (cut more).sink.bytes = whole.sink.bytes.extract 0 room ∧
        (cut more).env.depth = env.depth) := by
  intro whole cut
  have htruncated : whole.Truncated room failure (cut fuel) :=
    (truncates_interpret fuel program).truncated env (Nat.zero_le room)
  refine ⟨htruncated.eq_of_le, fun hroom more hle => ?_⟩
  obtain ⟨hresult, hbytes⟩ := htruncated.stops_of_lt hroom
  -- an execution that has stopped at the sink has no use for more fuel
  have hsame : cut more = cut fuel := by
    refine extends_interpret Buffer.sink hle program env _ ?_
    show (cut fuel).result ≠ .error .outOfFuel
    rw [hresult]
    simp
  have hdepth : (cut fuel).env.depth = env.depth :=
    (keeps_interpret Buffer.sink fuel program env _).depth_eq
  rw [hsame]
  exact ⟨hresult, hbytes, hdepth⟩

/-- A program that never ends: `while (true) print nil;`. -/
def endless : List Stmt := [.loop (.literal (.bool true)) (.print (.literal .nil))]

theorem full_sink_truncates_endless :
    6 < (outcome (interpret Buffer.sink 2 endless) .empty (.unlimited .empty)).sink.bytes.size ∧
      ∀ more ≥ 2,
        let cut := outcome (interpret Buffer.sink more endless) .empty (.limited 6 .full .empty)
        cut.result = .error (.output .full) ∧ cut.sink.bytes = "nil\nni".toUTF8 := by
  have hwhole : (outcome (interpret Buffer.sink 2 endless) .empty
      (.unlimited .empty)).sink.bytes = "nil\nnil\n".toUTF8 := rfl
  have hmore : 6 < (outcome (interpret Buffer.sink 2 endless) .empty
      (.unlimited .empty)).sink.bytes.size := by
    rw [hwhole]
    decide
  refine ⟨hmore, fun more hle => ?_⟩
  obtain ⟨hresult, hbytes, _⟩ :=
    (full_sink_truncates endless .empty 6 .full 2).2 hmore more hle
  refine ⟨hresult, hbytes.trans ?_⟩
  rw [hwhole]
  rfl

end Stmt

end Lox
