import DocLint.Proofs.ByteLength

/-!
# The reader loop over bytes

The reader keeps a byte position in the source. As long as the position is before the end, it cuts
a lexeme at that position with `Bytewise.turn?` and moves on by its bytes. A slice that fails, or a
loop that is not done after as many turns as the source has bytes, gives no tokens.

* `Bytewise.Reader`, `Bytewise.step?`, `Bytewise.run?`: the state, one turn, and the loop.
* `Bytewise.step?_eq`: one turn, from a position between two characters.
* `Bytewise.run?_eq`: the loop, from there to the end of the source.
* `tokenize_lossless`: the loop gives the tokens of `tokenize`, whatever the source, and the tokens
  put together are the source.
-/

namespace DocLint.Token

open Text

namespace Bytewise

/-- Where the reader stands: bytes and lines of what it has read, the mode, and the tokens. -/
structure Reader where
  position : Nat
  line : Nat
  mode : Mode
  tokens : List Token
  deriving Repr

/-- The token of a turn, sliced out of the source, and the reader behind it. -/
def push? (source : Text) (r : Reader) (turn : Turn) : Option Reader := do
  let stop := min (r.position + turn.bytes) (utf8Length source)
  let text ← slice? r.position stop source
  return {
    position := stop
    line := r.line + breaks text
    mode := turn.mode
    tokens := r.tokens ++ [⟨⟨turn.kind, text⟩, r.line, r.position⟩] }

/-- One turn of the loop. -/
def step? (source : Text) (r : Reader) : Option Reader := do
  let rest ← dropBytes? r.position source
  let turn ← turn? r.mode rest
  push? source r turn

/-- Turns the loop until the position is the end of the source, `fuel` times at most. -/
def run? (source : Text) : Nat → Reader → Option Reader
  | 0, r => if r.position < utf8Length source then none else some r
  | fuel + 1, r =>
    if r.position < utf8Length source then (step? source r).bind (run? source fuel) else some r

/-- The tokens of a source, read by byte positions. -/
def tokenize? (source : Text) : Option (List Token) :=
  (run? source (utf8Length source) ⟨0, 1, startMode source, []⟩).map (·.tokens)

/-- A lexeme takes at least one byte, no more than there are, and ends between two characters. -/
theorem turn?_fits (mode : Mode) (c : Char) (t : Text) :
    ∃ turn, turn? mode (c :: t) = some turn ∧
      1 ≤ turn.bytes ∧ turn.bytes ≤ utf8Length (c :: t) ∧ IsBoundary (c :: t) turn.bytes := by
  have hboundary := isBoundary_take ((cut mode c t).extra + 1) (c :: t)
  rw [List.take_succ_cons] at hboundary
  have hc := c.utf8Size_pos
  refine ⟨_, turn?_eq mode c t, ?_, hboundary.le, hboundary⟩
  show 1 ≤ utf8Length (c :: t.take (cut mode c t).extra)
  rw [utf8Length_cons]
  omega

/-- One turn cuts off the lexeme that `cut` finds behind the text `u` read so far. -/
theorem step?_eq {u : Text} {c : Char} {t : Text} {r : Reader} (hr : r.position = utf8Length u) :
    step? (u ++ c :: t) r = some {
      position := r.position + utf8Length (c :: t.take (cut r.mode c t).extra)
      line := r.line + breaks (c :: t.take (cut r.mode c t).extra)
      mode := (cut r.mode c t).mode
      tokens := r.tokens ++ [⟨⟨(cut r.mode c t).kind, c :: t.take (cut r.mode c t).extra⟩,
        r.line, r.position⟩] } := by
  obtain ⟨extra, hextra⟩ : ∃ n, n = (cut r.mode c t).extra := ⟨_, rfl⟩
  have hsplit : u ++ c :: t = u ++ (c :: t.take extra ++ t.drop extra) := by
    rw [List.cons_append, List.take_append_drop]
  have hstop : min (utf8Length u + utf8Length (c :: t.take extra)) (utf8Length (u ++ c :: t)) =
      utf8Length u + utf8Length (c :: t.take extra) := by
    refine Nat.min_eq_left ?_
    rw [hsplit, utf8Length_append, utf8Length_append]
    omega
  have hslice : slice? (utf8Length u) (utf8Length u + utf8Length (c :: t.take extra))
      (u ++ c :: t) = some (c :: t.take extra) := by
    rw [hsplit]
    exact slice?_append ..
  simp only [step?, push?, hr, dropBytes?_append, turn?_eq, ← hextra, hstop, hslice,
    Option.bind_eq_bind, Option.bind_some, Option.pure_def]

/-- At the end of the source the loop is done. -/
theorem run?_of_le {source : Text} {r : Reader} (h : utf8Length source ≤ r.position)
    (fuel : Nat) : run? source fuel r = some r := by
  cases fuel with
  | zero => exact if_neg (Nat.not_lt.2 h)
  | succ fuel => exact if_neg (Nat.not_lt.2 h)

/-- From a position between two characters on, the loop reads the lexemes of the rest. -/
theorem run?_eq {source u t : Text} {r : Reader} {fuel : Nat} (hsource : source = u ++ t)
    (hr : r.position = utf8Length u) (hfuel : utf8Length t ≤ fuel) :
    (run? source fuel r).map (·.tokens) =
      some (r.tokens ++ place r.line r.position (lexemes r.mode t)) := by
  induction hn : t.length using Nat.strongRecOn generalizing u t r fuel with
  | ind n ih =>
      cases t with
      | nil =>
          have hend : utf8Length source ≤ r.position := by rw [hsource, hr, List.append_nil]
          rw [run?_of_le hend, lexemes_nil, place, List.append_nil]
          rfl
      | cons c t =>
          have hc := c.utf8Size_pos
          rw [utf8Length_cons] at hfuel
          -- a turn takes one byte at least, and there is fuel for each byte
          obtain ⟨fuel, rfl⟩ : ∃ k, fuel = k + 1 := ⟨fuel - 1, by omega⟩
          have hmore : r.position < utf8Length source := by
            rw [hsource, hr, utf8Length_append, utf8Length_cons]
            omega
          have hrest : source = (u ++ c :: t.take (cut r.mode c t).extra) ++
              t.drop (cut r.mode c t).extra := by
            rw [List.append_assoc, List.cons_append, List.take_append_drop]
            exact hsource
          have hshort : (t.drop (cut r.mode c t).extra).length < n := by
            rw [← hn, List.length_drop, List.length_cons]
            omega
          have hbytes := utf8Length_drop_lt c t (cut r.mode c t).extra
          rw [utf8Length_cons] at hbytes
          rw [run?, if_pos hmore, hsource, step?_eq hr, Option.bind_some, ← hsource,
            ih _ hshort hrest (by rw [utf8Length_append, hr]) (by omega) rfl, lexemes_cons, place,
            List.append_assoc]
          rfl

/-- **The loop over bytes reads the tokens of every source.** -/
theorem tokenize?_eq (source : Text) : tokenize? source = some (tokenize source) :=
  run?_eq (u := []) rfl rfl (Nat.le_refl _)

/-- Every turn of the loop moves the position on, to a place between two characters. -/
theorem step?_moves {source : Text} {r : Reader} (hr : IsBoundary source r.position)
    (hmore : r.position < utf8Length source) :
    ∃ r', step? source r = some r' ∧ r.position < r'.position ∧
      IsBoundary source r'.position := by
  obtain ⟨u, t, rfl, hu⟩ := hr
  cases t with
  | nil =>
      rw [List.append_nil, hu] at hmore
      exact absurd hmore (Nat.lt_irrefl _)
  | cons c t =>
      refine ⟨_, step?_eq hu.symm, ?_, ?_⟩
      · have hc := c.utf8Size_pos
        show r.position < r.position + utf8Length (c :: t.take (cut r.mode c t).extra)
        rw [utf8Length_cons]
        omega
      · refine ⟨u ++ c :: t.take (cut r.mode c t).extra, t.drop (cut r.mode c t).extra, ?_, ?_⟩
        · rw [List.append_assoc, List.cons_append, List.take_append_drop]
        · rw [utf8Length_append, hu]

end Bytewise

/-! ## The whole source -/

/-- **Tokenization is lossless.** The loop over byte positions comes to its end and gives the tokens
of `tokenize`. Every branch, in either mode and of any text that is left, takes the bytes of the
characters that `cut` takes: at least one, no more than there are, up to a place between two
characters; so that every turn moves the position on. The tokens are not empty and put together they
are the source; each starts where the ones before it end, between two characters, on the line that
the line feeds before it give. -/
theorem tokenize_lossless (source : Text) :
    Bytewise.tokenize? source = some (tokenize source) ∧
    (∀ mode c rest, ∃ turn, Bytewise.turn? mode (c :: rest) = some turn ∧
      turn.kind = (cut mode c rest).kind ∧ turn.mode = (cut mode c rest).mode ∧
      turn.bytes = utf8Length (c :: rest.take (cut mode c rest).extra) ∧
      (cut mode c rest).extra ≤ rest.length ∧
      1 ≤ turn.bytes ∧ turn.bytes ≤ utf8Length (c :: rest) ∧
      IsBoundary (c :: rest) turn.bytes) ∧
    (∀ r : Bytewise.Reader, IsBoundary source r.position → r.position < utf8Length source →
      ∃ r', Bytewise.step? source r = some r' ∧ r.position < r'.position ∧
        IsBoundary source r'.position) ∧
    (∀ t ∈ tokenize source, t.text ≠ []) ∧
    textOf (tokenize source) = source ∧
    (∀ i t, (tokenize source)[i]? = some t →
      t.offset = utf8Length (textOf ((tokenize source).take i)) ∧
      t.finish = utf8Length (textOf ((tokenize source).take (i + 1))) ∧
      IsBoundary source t.offset ∧ IsBoundary source t.finish ∧
      t.line = 1 + breaks (before t.offset source)) := by
  refine ⟨Bytewise.tokenize?_eq source, ?_, fun r => Bytewise.step?_moves,
    fun t => text_ne_nil_of_mem_tokenize, textOf_tokenize source, ?_⟩
  · intro mode c rest
    obtain ⟨turn, hturn, hfits⟩ := Bytewise.turn?_fits mode c rest
    obtain rfl := Option.some.inj (hturn.symm.trans (Bytewise.turn?_eq mode c rest))
    exact ⟨_, hturn, rfl, rfl, rfl, cut_extra_le mode c rest, hfits⟩
  · intro i t h
    obtain ⟨_, _, hoffset⟩ := tokenize_split h
    obtain ⟨hstart, hfinish⟩ := isBoundary_token h
    exact ⟨hoffset, finish_eq h, hstart, hfinish, line_eq h⟩

end DocLint.Token
