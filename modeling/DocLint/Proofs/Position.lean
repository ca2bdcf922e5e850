import DocLint.Proofs.Place
import DocLint.SourceFile
import Mathlib.Data.List.TakeWhile

/-!
# Where tokens and lines stand

The positions that a file answers with, read off its source.

* `tokenize_split`: a token cuts the source in three, and its line and offset count the line feeds
  and the bytes of the first part; `isBoundary_token` and `line_eq` say so of the source alone.
* `columnNumber_eq`: the backward scan for a column counts the characters of the last line
  before the token.
* `lineOffset_parse`: the forward scan through the tokens for a line is a scan of the source.
* `exists_pastBreak_eq`: the offset of a line that the source has lies just behind a line feed, or
  is zero.
-/

namespace DocLint

open Text

namespace Token

@[simp]
theorem textOf_nil : textOf [] = [] := rfl

@[simp]
theorem textOf_append (ts us : List Token) : textOf (ts ++ us) = textOf ts ++ textOf us := by
  simp [textOf]

@[simp]
theorem textOf_cons (t : Token) (ts : List Token) : textOf (t :: ts) = t.text ++ textOf ts := by
  simp [textOf]

theorem textOf_take_succ {ts : List Token} {i : Nat} {t : Token} (h : ts[i]? = some t) :
    textOf (ts.take (i + 1)) = textOf (ts.take i) ++ t.text := by
  rw [List.take_add_one, h, Option.toList_some, textOf_append, textOf_cons, textOf_nil,
    List.append_nil]

/-- A token cuts the source: what stands before it gives its line and its offset. -/
theorem tokenize_split {source : Text} {i : Nat} {t : Token} (h : (tokenize source)[i]? = some t) :
    source = textOf ((tokenize source).take i) ++
        (t.text ++ textOf ((tokenize source).drop (i + 1))) ∧
      t.line = 1 + breaks (textOf ((tokenize source).take i)) ∧
      t.offset = utf8Length (textOf ((tokenize source).take i)) := by
  obtain ⟨hi, rfl⟩ := List.getElem?_eq_some_iff.1 h
  have hcut : tokenize source = (tokenize source).take i ++
      (tokenize source)[i] :: (tokenize source).drop (i + 1) := by
    rw [← List.drop_eq_getElem_cons hi, List.take_append_drop]
  refine ⟨?_, tokenize_eq_append hcut⟩
  have htext := congrArg textOf hcut
  rw [textOf_tokenize, textOf_append, textOf_cons] at htext
  exact htext

theorem before_offset {source : Text} {i : Nat} {t : Token} (h : (tokenize source)[i]? = some t) :
    before t.offset source = textOf ((tokenize source).take i) := by
  obtain ⟨hcut, _, hoffset⟩ := tokenize_split h
  have hbefore := before_utf8Length_append (textOf ((tokenize source).take i))
    (t.text ++ textOf ((tokenize source).drop (i + 1)))
  rw [← hcut, ← hoffset] at hbefore
  exact hbefore

theorem finish_eq {source : Text} {i : Nat} {t : Token} (h : (tokenize source)[i]? = some t) :
    t.finish = utf8Length (textOf ((tokenize source).take (i + 1))) := by
  obtain ⟨_, _, hoffset⟩ := tokenize_split h
  rw [textOf_take_succ h, utf8Length_append, ← hoffset, finish]

/-- A token starts and ends between two characters. -/
theorem isBoundary_token {source : Text} {i : Nat} {t : Token}
    (h : (tokenize source)[i]? = some t) :
    IsBoundary source t.offset ∧ IsBoundary source t.finish := by
  obtain ⟨hcut, _, hoffset⟩ := tokenize_split h
  refine ⟨⟨_, _, hcut, hoffset.symm⟩, _, textOf ((tokenize source).drop (i + 1)), ?_,
    (finish_eq h).symm⟩
  rw [textOf_take_succ h, List.append_assoc]
  exact hcut

/-- The line of a token counts the line feeds before it. -/
theorem line_eq {source : Text} {i : Nat} {t : Token} (h : (tokenize source)[i]? = some t) :
    t.line = 1 + breaks (before t.offset source) := by
  rw [before_offset h]
  exact (tokenize_split h).2.1

end Token

namespace SourceFile

open Token

/-! ## Columns -/

theorem lastLineLength_eq (t : Text) : lastLineLength t = (lastLine t).length := by
  unfold lastLineLength
  induction t with
  | nil => rfl
  | cons c t ih =>
      rw [List.reverse_cons, List.takeWhile_append, lastLine]
      by_cases ht : '\n' ∈ t
      · have hshort : (t.reverse.takeWhile (· ≠ '\n')).length ≠ t.reverse.length := by
          intro hlen
          have hall : t.reverse.takeWhile (· ≠ '\n') = t.reverse :=
            (List.takeWhile_prefix _).eq_of_length hlen
          have := List.takeWhile_eq_self_iff.1 hall '\n' (by simpa using ht)
          simp at this
        rw [if_neg hshort, if_pos ht, ih]
      · have hall : t.reverse.takeWhile (· ≠ '\n') = t.reverse :=
          List.takeWhile_eq_self_iff.2 fun d hd => by
            simp only [List.mem_reverse] at hd
            simpa using fun h : d = '\n' => ht (h ▸ hd)
        rw [hall, if_pos rfl, if_neg ht]
        by_cases hc : c = '\n'
        · simp [hc]
        · simp [hc]

theorem columnBack_eq (column : Nat) (ts : List Token) :
    columnBack column ts = column + (lastLine (textOf ts.reverse)).length := by
  induction ts generalizing column with
  | nil => simp [columnBack, lastLine]
  | cons t ts ih =>
      rw [columnBack, List.reverse_cons, textOf_append, textOf_cons, textOf_nil, List.append_nil,
        lastLine_append]
      split
      · rw [lastLineLength_eq]
      · rw [ih, List.length_append]
        omega

/-- The column of a token counts the characters between the start of its line and the token. -/
theorem columnNumber_eq (f : SourceFile) (tid : Nat) :
    f.columnNumber tid = 1 + (lastLine (textOf (f.tokens.take tid))).length := by
  rw [columnNumber, columnBack_eq, List.reverse_reverse]

/-! ## Line offsets -/

theorem pastBreak_append_of_le {n : Nat} {s : Text} (h : n ≤ breaks s) (t : Text) :
    pastBreak n (s ++ t) = pastBreak n s := by
  induction s generalizing n with
  | nil =>
      obtain rfl : n = 0 := by simpa using h
      cases t <;> rfl
  | cons c s ih =>
      cases n with
      | zero => rfl
      | succ n =>
          rw [breaks_cons] at h
          rw [List.cons_append, pastBreak, pastBreak, ih]
          split
          · rename_i hc
            rw [if_pos hc] at h
            omega
          · rename_i hc
            rw [if_neg hc] at h
            omega

theorem pastBreak_append_of_lt {n : Nat} {s : Text} (h : breaks s < n) (t : Text) :
    pastBreak n (s ++ t) = utf8Length s + pastBreak (n - breaks s) t := by
  induction s generalizing n with
  | nil => simp
  | cons c s ih =>
      obtain ⟨n, rfl⟩ : ∃ m, n = m + 1 := ⟨n - 1, by omega⟩
      rw [breaks_cons] at h ⊢
      rw [List.cons_append, pastBreak, utf8Length_cons]
      split
      · rename_i hc
        rw [if_pos hc] at h
        rw [ih (by omega), show n + 1 - (breaks s + 1) = n - breaks s by omega]
        omega
      · rename_i hc
        rw [if_neg hc] at h
        rw [ih (by omega), Nat.add_zero (breaks s), Nat.add_assoc]

theorem pastBreak_eq_utf8Length {n : Nat} {t : Text} (h : breaks t < n) :
    pastBreak n t = utf8Length t := by
  have := pastBreak_append_of_lt h []
  rw [List.append_nil] at this
  rw [this]
  cases n - breaks t <;> rfl

/-- The offset of the line after `n` line feeds follows a text that ends with the last of them. -/
theorem exists_pastBreak_eq {n : Nat} {t : Text} (h : n ≤ breaks t) :
    ∃ s r, t = s ++ r ∧ pastBreak n t = utf8Length s ∧ breaks s = n ∧ lastLine s = [] := by
  induction t generalizing n with
  | nil => exact ⟨[], [], rfl, by cases n <;> rfl, (Nat.le_zero.1 h).symm, rfl⟩
  | cons c t ih =>
      cases n with
      | zero => exact ⟨[], c :: t, rfl, rfl, rfl, rfl⟩
      | succ n =>
          rw [breaks_cons] at h
          by_cases hc : c = '\n'
          · rw [if_pos hc] at h
            obtain ⟨s, r, rfl, hoff, hbr, hlast⟩ := ih (n := n) (by omega)
            refine ⟨c :: s, r, rfl, ?_, ?_, ?_⟩
            · rw [pastBreak, if_pos hc, hoff, utf8Length_cons]
            · rw [breaks_cons, if_pos hc, hbr]
            · rw [lastLine, hlast, if_pos hc]
              split
              · rfl
              · rename_i hno
                rw [lastLine_of_not_mem hno] at hlast
                exact hlast
          · rw [if_neg hc] at h
            obtain ⟨s, r, rfl, hoff, hbr, hlast⟩ := ih (n := n + 1) (by omega)
            refine ⟨c :: s, r, rfl, ?_, ?_, ?_⟩
            · rw [pastBreak, if_neg hc, hoff, utf8Length_cons]
            · rw [breaks_cons, if_neg hc, hbr]
            · have hmem : '\n' ∈ s := by
                refine Decidable.byContradiction fun hno => ?_
                rw [← breaks_eq_zero] at hno
                omega
              rw [lastLine, if_pos hmem, hlast]

/-- The scan through placed lexemes is a scan of their text. -/
theorem offsetPastBreak_place {n : Nat} (hn : 0 < n) (line offset : Nat) (ls : List Lexeme) :
    offsetPastBreak n (place line offset ls) =
      if n ≤ breaks (ls.map Lexeme.text).flatten then
        some (offset + pastBreak n (ls.map Lexeme.text).flatten)
      else none := by
  induction ls generalizing n line offset with
  | nil => rw [if_neg (by simp; omega)]; rfl
  | cons l ls ih =>
      simp only [place, offsetPastBreak, List.map_cons, List.flatten_cons, breaks_append]
      by_cases h : n ≤ breaks l.text
      · rw [if_pos h, if_pos (by omega), pastBreak_append_of_le h]
      · rw [if_neg h, ih (by omega)]
        by_cases h' : n ≤ breaks l.text + breaks (ls.map Lexeme.text).flatten
        · rw [if_pos (by omega), if_pos h', pastBreak_append_of_lt (by omega), Nat.add_assoc]
        · rw [if_neg (by omega), if_neg h']

/-- The end of the last token is the end of the source. -/
theorem finish_getLast? (source : Text) :
    ((tokenize source).getLast?.map Token.finish).getD 0 = utf8Length source := by
  rcases Nat.eq_zero_or_pos (tokenize source).length with hz | hpos
  · have hnil := List.eq_nil_of_length_eq_zero hz
    have htext := textOf_tokenize source
    rw [hnil] at htext ⊢
    rw [← htext]
    rfl
  · obtain ⟨t, ht⟩ : ∃ t, (tokenize source)[(tokenize source).length - 1]? = some t :=
      ⟨_, List.getElem?_eq_getElem (by omega)⟩
    rw [List.getLast?_eq_getElem?, ht, Option.map_some, Option.getD_some, finish_eq ht,
      Nat.sub_add_cancel hpos, List.take_length, textOf_tokenize]

/-- **The offset of a line is found in the source.** -/
theorem lineOffset_parse (path source : Text) (line : Nat) :
    (parse path source).lineOffset line = pastBreak (line - 1) source := by
  unfold lineOffset
  split
  · rename_i h
    rw [show line - 1 = 0 by omega]
    cases source <;> rfl
  · rename_i h
    show (offsetPastBreak (line - 1) (place 1 0 (lexemes (startMode source) source))).getD
      (((tokenize source).getLast?.map Token.finish).getD 0) = _
    rw [offsetPastBreak_place (by omega), finish_getLast?, flatten_lexemes]
    split
    · rw [Option.getD_some, Nat.zero_add]
    · rename_i hno
      rw [Option.getD_none, pastBreak_eq_utf8Length (by omega)]

end SourceFile

end DocLint
