import Lox.Proofs.Session.Diagnostics

/-!
# The lines of reports

A newline is written after each report, whether or not there are newlines in it.  In the reports of
the scan there are none, and neither are there in those of the grammar, with one exception: the
report of an error at a string quotes the string as it stands in the source, and that may span
lines (`notMem_newline_mistakeReports_iff`).

Reports with the bytes of as many lines are lines themselves (`notMem_newline_of_utf8Reports_eq`):
all of these newlines are needed at the ends of the reports, so none is left within.
-/

namespace Lox

variable {source before after : String} {reports lines : List String}

/-! ## As many lines -/

/-- The characters of reports, each ended by a newline. -/
def endedReports : List String → List Char
  | [] => []
  | report :: rest => report.toList ++ '\n' :: endedReports rest

theorem utf8Reports_eq (reports : List String) :
    utf8Reports reports = (String.ofList (endedReports reports)).toUTF8 := by
  induction reports with
  | nil => rfl
  | cons report rest ih =>
      have hended : String.ofList (endedReports (report :: rest)) =
          report ++ "\n" ++ String.ofList (endedReports rest) := by
        refine String.toList_injective ?_
        simp [endedReports]
      rw [utf8Reports, ih, hended]
      exact String.toByteArray_append.symm

/-- The newlines of a report are those within it and the one at its end. -/
theorem count_newline_cons (report : String) (rest : List String) :
    (endedReports (report :: rest)).count '\n' =
      report.toList.count '\n' + (endedReports rest).count '\n' + 1 := by
  rw [endedReports, List.count_append, List.count_cons_self, Nat.add_assoc]

theorem length_le_count_newline (reports : List String) :
    reports.length ≤ (endedReports reports).count '\n' := by
  induction reports with
  | nil => exact Nat.zero_le _
  | cons report rest ih =>
      rw [count_newline_cons, List.length_cons]
      omega

theorem count_newline_eq_length_iff :
    (endedReports reports).count '\n' = reports.length ↔
      ∀ report ∈ reports, '\n' ∉ report.toList := by
  induction reports with
  | nil => simp [endedReports]
  | cons report rest ih =>
      have hle := length_le_count_newline rest
      rw [count_newline_cons, List.length_cons, List.forall_mem_cons, ← ih,
        ← List.count_eq_zero]
      omega

/-- Reports that could be as many lines are lines. -/
theorem notMem_newline_of_utf8Reports_eq (hbytes : utf8Reports lines = utf8Reports reports)
    (hlength : lines.length = reports.length) (hlines : ∀ line ∈ lines, '\n' ∉ line.toList) :
    ∀ report ∈ reports, '\n' ∉ report.toList := by
  rw [utf8Reports_eq, utf8Reports_eq] at hbytes
  have hended : endedReports lines = endedReports reports :=
    String.ofList_injective (String.toByteArray_inj.1 hbytes)
  rw [← count_newline_eq_length_iff, ← hended, ← hlength]
  exact count_newline_eq_length_iff.2 hlines

/-! ## Texts of errors -/

theorem notMem_newline_toString (line : Int32) : '\n' ∉ (toString line).toList := by
  have hdigits : ∀ n : Nat, '\n' ∉ (toString n).toList := by
    intro n hnewline
    have hrepr : (toString n).toList = Nat.toDigits 10 n := String.toList_ofList
    rw [hrepr] at hnewline
    cases Nat.isDigit_of_mem_toDigits (by decide) (by decide) hnewline
  show '\n' ∉ (toString line.toInt).toList
  cases line.toInt with
  | ofNat n => exact hdigits n
  | negSucc n =>
      show '\n' ∉ ("-" ++ toString (n + 1)).toList
      rw [String.toList_append, List.mem_append]
      exact not_or.2 ⟨by decide, hdigits (n + 1)⟩

theorem newline_mem_lineReport_iff (line : Int32) :
    '\n' ∈ (lineReport before line after).toList ↔
      '\n' ∈ before.toList ∨ '\n' ∈ after.toList := by
  simp [lineReport, notMem_newline_toString]

/-- The report of an error of the scan is one line. -/
theorem ScanError.notMem_newline_text (error : ScanError) : '\n' ∉ error.text.toList := by
  have hmessage : '\n' ∉ error.cause.message.toList := by cases error.cause <;> decide
  rw [error.text_eq, newline_mem_lineReport_iff]
  simp [hmessage]

/-- The report of an error of the grammar is one line unless the error is at a string with newlines
in it. -/
theorem SyntaxError.newline_mem_text_iff {error : SyntaxError}
    (h : error.token ∈ (scan source).tokens) :
    '\n' ∈ error.text.toList ↔ error.token.kind.spansLines = true := by
  have hmessage : '\n' ∉ error.cause.message.toList := by cases error.cause <;> decide
  have hplace : '\n' ∈ error.place.toList ↔ error.token.kind.spansLines = true := by
    unfold SyntaxError.place
    split
    · rename_i hend
      rw [Token.Kind.isEnd_iff.1 hend]
      decide
    · rw [← Scan.newline_mem_lexeme_iff h]
      simp
  rw [error.text_eq, newline_mem_lineReport_iff, ← hplace]
  simp [hmessage]

/-! ## Sources -/

namespace Session

/-- An error of the grammar is at a string with newlines in it, which its report quotes. -/
def QuotesLines (source : String) : Prop :=
  ∃ errors, parse (scan source).tokens = .error errors ∧
    ∃ error ∈ errors, error.token.kind.spansLines = true

/-- The mistakes of a source are reported in lines, unless a report quotes a string that spans
lines. -/
theorem notMem_newline_mistakeReports_iff :
    (∀ report ∈ mistakeReports source, '\n' ∉ report.toList) ↔ ¬ QuotesLines source := by
  have htext : ∀ {errors}, parse (scan source).tokens = .error errors → ∀ error ∈ errors,
      ('\n' ∈ error.text.toList ↔ error.token.kind.spansLines = true) := by
    intro errors hparse error hmem
    exact SyntaxError.newline_mem_text_iff
      (token_mem_of_parse_eq_error (exists_isEnd_scan source) hparse error hmem)
  rw [mistakeReports, List.forall_mem_append]
  constructor
  · rintro ⟨-, hgrammar⟩ ⟨errors, hparse, error, hmem, hspans⟩
    rw [syntaxReports_of_error hparse, List.forall_mem_map] at hgrammar
    exact hgrammar error hmem ((htext hparse error hmem).2 hspans)
  · intro hquotes
    refine ⟨List.forall_mem_map.2 fun error _ => error.notMem_newline_text, ?_⟩
    cases hparse : parse (scan source).tokens with
    | ok program =>
        rw [syntaxReports_of_ok hparse]
        exact List.forall_mem_nil _
    | error errors =>
        rw [syntaxReports_of_error hparse, List.forall_mem_map]
        intro error hmem hnewline
        exact hquotes ⟨errors, hparse, error, hmem, (htext hparse error hmem).1 hnewline⟩

end Session

end Lox
