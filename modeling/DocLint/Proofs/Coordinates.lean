import DocLint.Proofs.Position

/-!
# Lines and columns as coordinates

A file is asked for places in two ways: the column of a token comes from a scan back through the
tokens in characters, the start of a line from a scan forward in bytes. Both are read off the source
here, and they meet: what stands between the start of a token's line and the token is one line, as
long as the column says.

* `EndsLine`: a text behind which a line starts; `exists_lastLine`: every text is cut at the start
  of its last line.
* `pastBreak_mono`: later lines start later.
* `positions_agree`: line numbers, line offsets and columns of a file, by its source.
-/

namespace DocLint

open Text Token

namespace Text

/-- A line starts behind the text: it is empty or ends with a line feed. -/
def EndsLine (t : Text) : Prop := t = [] ∨ t.getLast? = some '\n'

theorem endsLine_of_lastLine {t : Text} (h : lastLine t = []) : EndsLine t := by
  rcases List.eq_nil_or_concat t with rfl | ⟨front, c, rfl⟩
  · exact Or.inl rfl
  · rw [List.concat_eq_append] at h ⊢
    by_cases hc : c = '\n'
    · subst hc
      exact Or.inr List.getLast?_concat
    · -- a last character that is no line feed belongs to the last line
      have hno : '\n' ∉ [c] := by simpa using Ne.symm hc
      rw [lastLine_append, if_neg hno] at h
      simp at h

end Text

namespace SourceFile

/-- A text is cut at the start of its last line, which its line feeds count up to. -/
theorem exists_lastLine (t : Text) :
    ∃ above, t = above ++ lastLine t ∧ EndsLine above ∧ '\n' ∉ lastLine t ∧
      pastBreak (breaks t) t = utf8Length above := by
  obtain ⟨above, last, ht, hoffset, hbreaks, habove⟩ := exists_pastBreak_eq (Nat.le_refl (breaks t))
  have hlast : '\n' ∉ last := by
    rw [ht, breaks_append] at hbreaks
    apply breaks_eq_zero.1
    omega
  have hline : lastLine t = last := by
    rw [ht, lastLine_append, if_neg hlast, habove, List.nil_append]
  rw [hline]
  exact ⟨above, ht, endsLine_of_lastLine habove, hlast, hoffset⟩

/-- Later lines do not start earlier. -/
theorem pastBreak_mono {m n : Nat} (h : m ≤ n) (t : Text) : pastBreak m t ≤ pastBreak n t := by
  induction t generalizing m n with
  | nil => cases m <;> simp [pastBreak]
  | cons c t ih =>
      cases m with
      | zero => simp [pastBreak]
      | succ m =>
          obtain ⟨n, rfl⟩ : ∃ k, n = k + 1 := ⟨n - 1, by omega⟩
          rw [pastBreak, pastBreak]
          apply Nat.add_le_add_left
          apply ih
          split <;> omega

/-- Between the start of its line and a token stands one line, as long as the column says. -/
theorem column_of_token {path source : Text} {tid : Nat} {t : Token}
    (ht : (parse path source).tokens[tid]? = some t) :
    ∃ above inside rest, source = above ++ inside ++ rest ∧
      (parse path source).lineOffset ((parse path source).lineNumber tid) = utf8Length above ∧
      t.offset = utf8Length (above ++ inside) ∧ '\n' ∉ inside ∧
      (parse path source).columnNumber tid = 1 + inside.length := by
  obtain ⟨hcut, hline, hoffset⟩ := tokenize_split ht
  have hnumber : (parse path source).lineNumber tid = t.line := by
    rw [lineNumber, ht]
    rfl
  have hcolumn := columnNumber_eq (parse path source) tid
  have htokens : (parse path source).tokens = tokenize source := rfl
  rw [htokens] at hcolumn
  generalize textOf ((tokenize source).take tid) = front,
    t.text ++ textOf ((tokenize source).drop (tid + 1)) = rest at hcut hline hoffset hcolumn
  obtain ⟨above, hfront, _, hlast, hstart⟩ := exists_lastLine front
  refine ⟨above, lastLine front, rest, ?_, ?_, ?_, hlast, hcolumn⟩
  · rw [← hfront]
    exact hcut
  · -- the line feeds before the token are those of the front, so the scan stays in it
    rw [hnumber, lineOffset_parse, hline, Nat.add_sub_cancel_left, hcut,
      pastBreak_append_of_le (Nat.le_refl _), hstart]
  · rw [← hfront]
    exact hoffset

/-- **Position queries agree with the source.** From the offset of a token's line to the token the
source has no line feed, and one character less than the column of the token. The line after `k`
line feeds starts just behind the last of them, and at the end of the source if there are fewer; so
line offsets grow with the line. An index without a token has the column just behind the source. -/
theorem positions_agree (path source : Text) :
    let f := parse path source
    (∀ tid t, f.tokens[tid]? = some t → ∃ above inside rest, source = above ++ inside ++ rest ∧
      f.lineOffset (f.lineNumber tid) = utf8Length above ∧
      t.offset = utf8Length (above ++ inside) ∧ '\n' ∉ inside ∧
      f.columnNumber tid = 1 + inside.length) ∧
    (∀ k ≤ breaks source, ∃ above rest, source = above ++ rest ∧ EndsLine above ∧
      breaks above = k ∧ f.lineOffset (k + 1) = utf8Length above) ∧
    (∀ k > breaks source, f.lineOffset (k + 1) = utf8Length source) ∧
    (∀ m n, m ≤ n → f.lineOffset m ≤ f.lineOffset n) ∧
    (∀ tid, f.tokens.length ≤ tid → ∃ above last, source = above ++ last ∧ EndsLine above ∧
      '\n' ∉ last ∧ f.columnNumber tid = 1 + last.length) := by
  intro f
  refine ⟨fun tid t => column_of_token, ?_, ?_, ?_, ?_⟩
  · intro k hk
    obtain ⟨above, rest, hcut, hoffset, hbreaks, hlast⟩ := exists_pastBreak_eq hk
    refine ⟨above, rest, hcut, endsLine_of_lastLine hlast, hbreaks, ?_⟩
    rw [lineOffset_parse, Nat.add_sub_cancel, hoffset]
  · intro k hk
    rw [lineOffset_parse, Nat.add_sub_cancel]
    exact pastBreak_eq_utf8Length hk
  · intro m n hmn
    rw [lineOffset_parse, lineOffset_parse]
    apply pastBreak_mono
    omega
  · intro tid htid
    obtain ⟨above, hcut, habove, hlast, _⟩ := exists_lastLine source
    refine ⟨above, lastLine source, hcut, habove, hlast, ?_⟩
    have htext : textOf (f.tokens.take tid) = source := by
      rw [List.take_of_length_le htid]
      exact textOf_tokenize source
    rw [columnNumber_eq, htext]

end SourceFile

end DocLint
