import Lox.Sink.Buffer

/-!
# Sinks that never fail

A `Recording` is a pair of sinks that never fail, with the bytes that each of them has taken.
`Writes` says which bytes have gone to each sink between two states, and nothing else is used
of such sinks.  The buffers of a terminal are a recording as long as their room is not limited
and their flush does not fail (`Terminal.recording`).
-/

namespace Lox

/-! ## Reports -/

/-- The bytes of reports, each ended by a newline.  A report may have newlines of its own. -/
def utf8Reports : List String → ByteArray
  | [] => .empty
  | report :: rest => (report ++ "\n").toUTF8 ++ utf8Reports rest

theorem utf8Reports_append (reports more : List String) :
    utf8Reports (reports ++ more) = utf8Reports reports ++ utf8Reports more := by
  induction reports with
  | nil => exact ByteArray.empty_append.symm
  | cons report rest ih =>
      rw [List.cons_append, utf8Reports, utf8Reports, ih, ByteArray.append_assoc]

variable {σ : Type}

/-- Texts are written one after another, up to the first that fails. -/
theorem Sink.writeLines_cons (sink : Sink (StateM σ)) (text : String) (rest : List String) (s : σ) :
    sink.writeLines (text :: rest) s = match sink.writeLine text s with
      | (.ok (), t) => sink.writeLines rest t
      | (.error failure, t) => (.error failure, t) := by
  show (sink.writeLine text >>= fun _ => sink.writeLines rest) s = _
  simp only [bind, ExceptT.bind, ExceptT.mk, StateT.bind, ExceptT.bindCont]
  rcases sink.writeLine text s with ⟨_ | _, _⟩ <;> rfl

/-! ## Records -/

/-- What is known of two sinks: in which states they are open, and what they have taken. -/
structure Record (σ : Type) where
  IsOpen : σ → Prop
  printed : σ → ByteArray
  reported : σ → ByteArray

namespace Record

/-- Between the states, these bytes have been written to the one sink and to the other. -/
structure Writes (record : Record σ) (s : σ) (output diagnostics : ByteArray) (t : σ) : Prop where
  isOpen : record.IsOpen t
  printed_eq : record.printed t = record.printed s ++ output
  reported_eq : record.reported t = record.reported s ++ diagnostics

variable {record : Record σ} {s t u : σ} {output diagnostics output' diagnostics' : ByteArray}

theorem Writes.nothing (h : record.IsOpen s) : record.Writes s .empty .empty s where
  isOpen := h
  printed_eq := ByteArray.append_empty.symm
  reported_eq := ByteArray.append_empty.symm

theorem Writes.trans (h : record.Writes s output diagnostics t)
    (h' : record.Writes t output' diagnostics' u) :
    record.Writes s (output ++ output') (diagnostics ++ diagnostics') u where
  isOpen := h'.isOpen
  printed_eq := by rw [h'.printed_eq, h.printed_eq, ByteArray.append_assoc]
  reported_eq := by rw [h'.reported_eq, h.reported_eq, ByteArray.append_assoc]

/-- What has been reported between two states is known from them. -/
theorem Writes.diagnostics_eq (h : record.Writes s output diagnostics t)
    (h' : record.Writes s output' diagnostics' t) : diagnostics = diagnostics' := by
  have hreported := h'.reported_eq
  rw [h.reported_eq] at hreported
  exact (ByteArray.append_right_inj _).1 hreported

theorem Writes.trans_output (h : record.Writes s output .empty t)
    (h' : record.Writes t output' .empty u) : record.Writes s (output ++ output') .empty u := by
  have htrans := h.trans h'
  rwa [ByteArray.empty_append] at htrans

end Record

/-- Sinks that never fail, and the bytes that they have taken. -/
structure Recording (streams : Streams (StateM σ)) extends Record σ where
  write_output (text : String) {s : σ} : IsOpen s →
    ∃ t, streams.output.write text s = (.ok (), t) ∧ toRecord.Writes s text.toUTF8 .empty t
  flush_output {s : σ} : IsOpen s →
    ∃ t, streams.output.flush s = (.ok (), t) ∧ toRecord.Writes s .empty .empty t
  write_diagnostics (text : String) {s : σ} : IsOpen s →
    ∃ t, streams.diagnostics.write text s = (.ok (), t) ∧ toRecord.Writes s .empty text.toUTF8 t

/-- Reports that are written are there, each ended by a newline. -/
theorem Recording.write_reports {streams : Streams (StateM σ)} (record : Recording streams)
    (reports : List String) {s : σ} (h : record.IsOpen s) :
    ∃ t, streams.diagnostics.writeLines reports s = (.ok (), t) ∧
      record.Writes s .empty (utf8Reports reports) t := by
  induction reports generalizing s with
  | nil => exact ⟨s, rfl, .nothing h⟩
  | cons report rest ih =>
      obtain ⟨t, hreport, hfirst⟩ := record.write_diagnostics (report ++ "\n") h
      obtain ⟨u, hrest, hothers⟩ := ih hfirst.isOpen
      have hwrite : streams.diagnostics.writeLine report s = (.ok (), t) := hreport
      refine ⟨u, ?_, hfirst.trans hothers⟩
      rw [Sink.writeLines_cons, hwrite]
      exact hrest

/-! ## Terminals -/

/-- The buffers of a terminal never fail if their room is not limited and they can be flushed. -/
def Terminal.recording : Recording Terminal.streams where
  IsOpen terminal := terminal.output.capacity = none ∧ terminal.output.flushFails = false ∧
    terminal.diagnostics.capacity = none
  printed terminal := terminal.output.bytes
  reported terminal := terminal.diagnostics.bytes
  write_output text s h := by
    obtain ⟨⟨bytes, _, _, _⟩, diagnostics⟩ := s
    obtain ⟨rfl, rfl, hdiagnostics⟩ := h
    exact ⟨_, rfl, ⟨rfl, rfl, hdiagnostics⟩, rfl, ByteArray.append_empty.symm⟩
  flush_output {s} h := by
    obtain ⟨⟨bytes, _, _, _⟩, diagnostics⟩ := s
    obtain ⟨rfl, rfl, hdiagnostics⟩ := h
    exact ⟨_, rfl, .nothing ⟨rfl, rfl, hdiagnostics⟩⟩
  write_diagnostics text s h := by
    obtain ⟨output, ⟨bytes, _, _, _⟩⟩ := s
    obtain ⟨hcapacity, hflush, rfl⟩ := h
    exact ⟨_, rfl, ⟨hcapacity, hflush, rfl⟩, ByteArray.append_empty.symm, rfl⟩

end Lox
