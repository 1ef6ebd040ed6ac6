import Lox.Proofs.Source.Lines

/-!
# Scans of joined sources

A newline ends whatever a source was about at its end, a comment or a number or a word, and
only a string goes on after it.  So where no string is left open, a scan of two sources with a
newline between them finds what the scans of the two find.  Of the second everything is
further down, by the lines of the first, and by nothing else: no other state is carried on.
-/

namespace Lox.Scan

variable {first second : String}

/-- As long as lines can be counted, a line of a source is moved down by so many lines. -/
theorem toInt_add_of_isLine {source : String} {line : Int32} {lines : Nat}
    (hline : IsLine source line) (hbound : source.toList.count '\n' + 1 + lines < 2 ^ 31) :
    (line + Int32.ofNat lines).toInt = line.toInt + lines := by
  obtain ⟨hfirst, hlast⟩ := hline
  have hlines : (Int32.ofNat lines).toInt = lines := Int32.toInt_ofNat_of_lt (by omega)
  rw [Int32.toInt_add, hlines]
  exact Int.bmod_eq_of_le (by omega) (by omega)

theorem count_joined (first second : String) :
    (first ++ "\n" ++ second).toList.count '\n' =
      first.toList.count '\n' + 1 + second.toList.count '\n' := by
  simp only [String.toList_append, List.count_append]
  rfl

/-- Two sources with a newline between them are scanned like each on its own: first comes what
is found in the first, without its end, and then what is found in the second, moved down by the
lines of the first.  All of these lines can be counted, so none is off by an overflow. -/
theorem scan_append (hclosed : ∀ error ∈ (scan first).errors, error.cause ≠ .unterminatedString)
    (hmark : second.toList.head? ≠ some '\uFEFF')
    (hlines : (first ++ "\n" ++ second).toList.count '\n' < 2 ^ 31 - 1) :
    (scan (first ++ "\n" ++ second)).tokens = (scan first).tokens.dropLast ++
        (scan second).tokens.map (Token.down (Int32.ofNat (first.toList.count '\n' + 1))) ∧
      (scan (first ++ "\n" ++ second)).errors = (scan first).errors ++
        (scan second).errors.map (ScanError.down (Int32.ofNat (first.toList.count '\n' + 1))) ∧
      (∀ token ∈ (scan second).tokens,
        (token.down (Int32.ofNat (first.toList.count '\n' + 1))).line.toInt =
          token.line.toInt + (1 + first.toList.count '\n')) ∧
      ∀ error ∈ (scan second).errors,
        (error.down (Int32.ofNat (first.toList.count '\n' + 1))).line.toInt =
          error.line.toInt + (1 + first.toList.count '\n') := by
  rw [count_joined] at hlines
  have hsecond : second.toList.count '\n' < 2 ^ 31 - 1 := by omega
  have hdown : ∀ {line : Int32}, IsLine second line →
      (line + Int32.ofNat (first.toList.count '\n' + 1)).toInt =
        line.toInt + (1 + first.toList.count '\n') := by
    intro line hline
    rw [toInt_add_of_isLine hline (by omega)]
    omega
  refine ⟨?_, errors_append hclosed hmark, fun token htoken => ?_, fun error herror => ?_⟩
  · rw [tokens_append hclosed hmark, scan_eq first, List.dropLast_concat]
  · exact hdown (isLine_of_mem_tokens hsecond htoken)
  · exact hdown (isLine_of_mem_errors hsecond herror)

theorem scan_strayComment : scan "@//" =
    ⟨[⟨.endOfSource, "", 1⟩], [⟨1, .unexpectedCharacter⟩]⟩ := by
  have hstray : pieces ['@', '/', '/'] = .unexpected '@' :: pieces ['/', '/'] := pieces_cons '@' _
  have hcomment : pieces ['/', '/'] = [.comment ['/', '/']] :=
    (pieces_cons '/' _).trans (congrArg _ pieces_nil)
  rw [hcomment] at hstray
  exact scan_of_pieces "@//" hstray

theorem scan_openString : scan "1.\n\"" =
    ⟨[⟨.number (Number.ofDigits ['1'] []), "1", 1⟩, ⟨.symbol .dot, ".", 1⟩, ⟨.endOfSource, "", 2⟩],
      [⟨2, .unterminatedString⟩]⟩ := by
  have hnumber : pieces ['1', '.', '\n', '"'] =
      .token (.number (Number.ofDigits ['1'] [])) ['1'] :: pieces ['.', '\n', '"'] :=
    pieces_cons '1' _
  have hpoint : pieces ['.', '\n', '"'] = .token (.symbol .dot) ['.'] :: pieces ['\n', '"'] :=
    pieces_cons '.' _
  have hblank : pieces ['\n', '"'] = .blank '\n' :: pieces ['"'] := pieces_cons '\n' _
  have hopen : pieces ['"'] = [.unterminated ['"']] :=
    (pieces_cons '"' _).trans (congrArg _ pieces_nil)
  rw [hpoint, hblank, hopen] at hnumber
  exact scan_of_pieces "1.\n\"" hnumber

/-- A comment does not go on into the next source, in which a string may be left open. -/
theorem scan_append_openString :
    (∀ error ∈ (scan "@//").errors, error.cause ≠ .unterminatedString) ∧
      "1.\n\"".toList.head? ≠ some '\uFEFF' ∧
      ("@//" ++ "\n" ++ "1.\n\"").toList.count '\n' < 2 ^ 31 - 1 ∧
      scan "@//\n1.\n\"" =
        ⟨[⟨.number (Number.ofDigits ['1'] []), "1", 2⟩, ⟨.symbol .dot, ".", 2⟩,
            ⟨.endOfSource, "", 3⟩],
          [⟨1, .unexpectedCharacter⟩, ⟨3, .unterminatedString⟩]⟩ := by
  have hclosed : ∀ error ∈ (scan "@//").errors, error.cause ≠ .unterminatedString := by
    rw [scan_strayComment]
    simp
  have hmark : "1.\n\"".toList.head? ≠ some '\uFEFF' := by decide
  have hlines : ("@//" ++ "\n" ++ "1.\n\"").toList.count '\n' < 2 ^ 31 - 1 := by decide
  obtain ⟨htokens, herrors, -, -⟩ := scan_append hclosed hmark hlines
  rw [scan_strayComment, scan_openString] at htokens herrors
  refine ⟨hclosed, hmark, hlines, ?_⟩
  rw [show scan "@//\n1.\n\"" = ⟨_, _⟩ from congrArg₂ Scan.mk htokens herrors]
  rfl

end Lox.Scan
