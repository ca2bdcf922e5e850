import DocLint.Proofs.Pass
import DocLint.SourceFile

/-!
# Declarations lie within the tokens

The ends of declarations come from different scans, each with its own answer for a group or a
statement that is never ended.

* `matchingClose_lt`, `statementEnd_lt`, `bodyFrom_last_lt`: every scan answers with the index of a
  token.
* `Recognized.span_bounds`: the range of a declaration holds the token that stands for it.
* `Guarded`: the recognisers and the pass once more, with every token fetched by its index, where an
  index out of range ends the run without an answer. `Guarded.recognize_eq` and `Guarded.run_eq`: this
  never happens, and the answers are those of the scans over lists.
* `spans_within_tokens`: both for every source.
-/

namespace DocLint

namespace Outline

variable {ts : List Token}

/-! ## The scans stay within the tokens -/

theorem lastIndex_lt (h : 0 < ts.length) : lastIndex ts < ts.length := by
  unfold lastIndex
  omega

theorem closeFrom_lt {pair : Kind × Kind} {depth j m : Nat} {us : List Token}
    (h : closeFrom pair depth j us = some m) : m < j + us.length := by
  induction us generalizing depth j with
  | nil => cases h
  | cons u us ih =>
      rw [closeFrom] at h
      rw [List.length_cons]
      split at h
      · have := ih h
        omega
      · split at h
        · split at h
          · cases h
            omega
          · have := ih h
            omega
        · have := ih h
          omega

theorem matchingClose_lt (h : 0 < ts.length) (opening : Nat) :
    matchingClose ts opening < ts.length := by
  unfold matchingClose
  have hlast := lastIndex_lt h
  split
  · exact hlast
  · rename_i t rest hdrop
    cases hc : closeFrom (pairOf t.kind) 0 opening (t :: rest) with
    | none => exact hlast
    | some m =>
        have hm := closeFrom_lt hc
        have hlen := congrArg List.length hdrop
        rw [List.length_drop] at hlen
        simp only [Option.getD_some, List.length_cons] at hm hlen ⊢
        omega

theorem statementEndFrom_lt {start depth j m : Nat} {us : List Token} (hj : start ≤ j)
    (h : statementEndFrom start depth j us = some m) : m < j + us.length := by
  induction us generalizing depth j with
  | nil => cases h
  | cons u us ih =>
      have further : ∀ {depth}, statementEndFrom start depth (j + 1) us = some m →
          m < j + (us.length + 1) := by
        intro depth h
        have := ih (by omega) h
        omega
      rw [statementEndFrom] at h
      rw [List.length_cons]
      split at h
      · exact further h
      · split at h
        · split at h
          · cases h
            omega
          · split at h
            · cases h
              omega
            · exact further h
        · split at h
          · cases h
            omega
          · exact further h

theorem statementEnd_lt (h : 0 < ts.length) (start : Nat) : statementEnd ts start < ts.length := by
  unfold statementEnd
  cases hs : statementEndFrom start 0 start (ts.drop start) with
  | none => exact lastIndex_lt h
  | some m =>
      have hm := statementEndFrom_lt (Nat.le_refl start) hs
      have hstart : start < ts.length := by
        refine Nat.lt_of_not_le fun hle => ?_
        rw [List.drop_eq_nil_of_le hle] at hs
        cases hs
      rw [List.length_drop] at hm
      rw [Option.getD_some]
      omega

theorem bodyFrom_last_lt (h : 0 < ts.length) (start : Nat) :
    (bodyFrom ts start).last < ts.length := by
  unfold bodyFrom
  split
  · exact lastIndex_lt h
  · rename_i t j hf
    split
    · exact matchingClose_lt h j
    · exact (List.getElem?_eq_some_iff.1
        (getElem?_of_mem_zipIdx_drop (List.mem_of_find?_eq_some hf)).1).1

/-- What follows a signature does not end before it. -/
theorem le_bodyFrom_last {i start : Nat} (hi : i < ts.length) (hle : i ≤ start) :
    i ≤ (bodyFrom ts start).last := by
  unfold bodyFrom
  split
  · show i ≤ lastIndex ts
    unfold lastIndex
    omega
  · rename_i t j hf
    obtain ⟨hget, hj⟩ := getElem?_of_mem_zipIdx_drop (List.mem_of_find?_eq_some hf)
    split
    · have := le_matchingClose (List.getElem?_eq_some_iff.1 hget).1
      show i ≤ matchingClose ts j
      omega
    · show i ≤ j
      omega

theorem le_of_mem_slice {first last j : Nat} {t : Token} (h : (t, j) ∈ slice ts first last) :
    first ≤ j ∧ j ≤ last := by
  obtain ⟨k, hk⟩ := List.mem_iff_getElem?.1 h
  unfold slice at hk
  rw [List.getElem?_take] at hk
  split at hk
  · rw [List.getElem?_zipIdx, Option.map_eq_some_iff] at hk
    obtain ⟨u, _, heq⟩ := hk
    cases heq
    omega
  · cases hk

/-! ## The ranges of declarations -/

namespace Recognized

variable {s : Site} {i : Nat} {t : Token} {r : Recognition} {d : Declaration}

/-- The call of `define` ends behind its word. -/
theorem define_last {o last : Nat} {paren : Token} (hi : i < ts.length)
    (next : nextSignificant? ts (i + 1) = some (paren, o))
    (ends : last = match nextSignificant? ts (matchingClose ts o + 1) with
      | some (u, j) => if u.kind = .semicolon then j else matchingClose ts o
      | none => matchingClose ts o) : i ≤ last ∧ last < ts.length := by
  obtain ⟨hget, ho, _⟩ := nextSignificant?_eq_some next
  have hle := le_matchingClose (List.getElem?_eq_some_iff.1 hget).1
  have hlt : matchingClose ts o < ts.length := matchingClose_lt (by omega) o
  split at ends
  · rename_i u j hj
    obtain ⟨hu, hjle, _⟩ := nextSignificant?_eq_some hj
    have := (List.getElem?_eq_some_iff.1 hu).1
    split at ends <;> omega
  · omega

/-- **The range of a declaration holds its token and lies within the tokens.** -/
theorem span_bounds (h : Recognized s i t r) (ht : s.tokens[i]? = some t)
    (hd : d ∈ r.declarations) :
    d.span.first ≤ d.anchor ∧ d.anchor ≤ d.span.last ∧ d.span.last < s.tokens.length := by
  have hi : i < s.tokens.length := (List.getElem?_eq_some_iff.1 ht).1
  have hpos : 0 < s.tokens.length := by omega
  cases h with
  | nothing => cases hd
  | classLike name n word free next named =>
      have hn := (nextSignificant?_eq_some next).2.1
      have hle : i ≤ (bodyFrom s.tokens (n + 1)).last := le_bodyFrom_last hi (by omega)
      rw [List.mem_singleton.1 hd]
      exact ⟨Nat.le_refl _, hle, bodyFrom_last_lt hpos _⟩
  | function name paren n o word free named next opens =>
      have hn := functionName?_eq_some named
      obtain ⟨hget, ho, _⟩ := nextSignificant?_eq_some next
      have hclose := le_matchingClose (List.getElem?_eq_some_iff.1 hget).1
      have hle : i ≤ (bodyFrom s.tokens (matchingClose s.tokens o + 1)).last :=
        le_bodyFrom_last hi (by omega)
      rw [List.mem_singleton.1 hd]
      exact ⟨Nat.le_refl _, hle, bodyFrom_last_lt hpos _⟩
  | constants word free =>
      obtain ⟨⟨u, j⟩, hp, rfl⟩ := List.mem_map.1 hd
      have hstart := (statementStart_spec (Nat.le_of_lt hi)).1
      rcases mem_of_mem_constantNames hp with hp | ⟨q, hq, _⟩
      · obtain ⟨hfirst, hlast⟩ := le_of_mem_slice hp
        refine ⟨?_, hlast, statementEnd_lt hpos _⟩
        show statementStart s.tokens i ≤ j
        omega
      · cases hq
  | properties v word inside first =>
      obtain ⟨⟨u, j⟩, hp, rfl⟩ := List.mem_map.1 hd
      have hv : i + 1 ≤ v :=
        le_firstVariable? (fun p hp => (getElem?_of_mem_zipIdx_drop hp).2) first
      obtain ⟨hfirst, hlast⟩ := le_of_mem_slice (mem_of_mem_propertyNames hp)
      refine ⟨?_, hlast, statementEnd_lt hpos _⟩
      show i ≤ j
      omega
  | define paren literal o n last name word free next opens argument quoted named ends =>
      rw [List.mem_singleton.1 hd]
      obtain ⟨hle, hlt⟩ := define_last hi next ends
      exact ⟨Nat.le_refl _, hle, hlt⟩

end Recognized

/-! ## Access by index -/

/-! Below, `none` stands for an access to an index that has no token. A scan that may stop early
fetches every token that it could come to. -/

namespace Guarded

/-- Fetches the tokens from index `first` up to index `stop`, which is left out. -/
def fetch (ts : List Token) (first stop : Nat) : Option (List (Token × Nat)) :=
  (List.range' first (stop - first)).mapM fun j => ts[j]?.map (·, j)

/-- The first significant token from index `start` on. -/
def nextSignificant (ts : List Token) (start : Nat) : Option (Option (Token × Nat)) := do
  let rest ← fetch ts start ts.length
  return rest.find? (·.1.isSignificant)

/-- The last significant token before index `before`. -/
def prevSignificant (ts : List Token) (before : Nat) : Option (Option Token) := do
  let front ← fetch ts 0 before
  return (front.map (·.1)).reverse.find? (·.isSignificant)

/-- The index of the token that closes the group opened at index `opening`. -/
def matchingClose (ts : List Token) (opening : Nat) : Option Nat := do
  let t ← ts[opening]?
  let group ← fetch ts opening ts.length
  return (closeFrom (pairOf t.kind) 0 opening (group.map (·.1))).getD (lastIndex ts)

/-- The body that follows index `start`, or the semicolon in its place. -/
def bodyFrom (ts : List Token) (start : Nat) : Option Body := do
  let rest ← fetch ts start ts.length
  match rest.find? fun p => p.1.kind == .openBrace || p.1.kind == .semicolon with
  | none => return ⟨none, lastIndex ts⟩
  | some (t, j) =>
    if t.kind = .openBrace then
      let close ← matchingClose ts j
      return ⟨some j, close⟩
    else return ⟨none, j⟩

/-- The index at which the statement from index `start` on ends. -/
def statementEnd (ts : List Token) (start : Nat) : Option Nat := do
  let rest ← fetch ts start ts.length
  return (statementEndFrom start 0 start (rest.map (·.1))).getD (lastIndex ts)

/-- The index of the first modifier before the token `i`. -/
def statementStart (ts : List Token) (i : Nat) : Option Nat := do
  let front ← fetch ts 0 i
  return modifiersBack i i (front.map (·.1)).reverse

/-- The class, interface, trait or enum declared by the word `t` at index `i`. -/
def classLikeAt (s : Site) (i : Nat) (t : Token) : Option (Option Recognition) := do
  let previous ← prevSignificant s.tokens i
  if previous.any fun p => isMemberAccess p || p.isKeyword "new" then return none
  match ← nextSignificant s.tokens (i + 1) with
  | none => return none
  | some (nameToken, n) =>
    if nameToken.kind ≠ .name then return none
    let body ← bodyFrom s.tokens (n + 1)
    return some {
      declarations := [.classLike {
        name := nameToken.text, keyword := Text.lower t.text, span := ⟨i, body.last⟩,
        body := body.opening, doc := s.doc }]
      scope := body.opening.map fun o => ⟨.classLike, nameToken.text, o, body.last⟩ }

/-- The name of the function declared at index `i`, behind `&` if that is there. -/
def functionName (ts : List Token) (i : Nat) : Option (Option (Token × Nat)) := do
  match ← nextSignificant ts (i + 1) with
  | none => return none
  | some (t, n) =>
    let word ← if t.isPunct "&" then nextSignificant ts (n + 1) else some (some (t, n))
    return word.filter fun p => decide (p.1.kind = .name ∨ p.1.kind = .keyword)

/-- The tokens of the parameters, up to the index `close` or the last one there is. -/
def parameterTokens (ts : List Token) (open_ close : Nat) : Option (List Token) := do
  let group ← fetch ts (open_ + 1) (min close (lastIndex ts) + 1)
  return (group.map (·.1)).take (close - (open_ + 1))

/-- The function declared at index `i`. -/
def functionAt (s : Site) (i : Nat) : Option (Option Recognition) := do
  let ts := s.tokens
  let previous ← prevSignificant ts i
  if previous.any (·.isKeyword "use") then return none
  match ← functionName ts i with
  | none => return none
  | some (nameToken, n) =>
    match ← nextSignificant ts (n + 1) with
    | none => return none
    | some (paren, open_) =>
      if paren.kind ≠ .openParen then return none
      let close ← matchingClose ts open_
      let parameters ← parameterTokens ts open_ close
      let body ← bodyFrom ts (close + 1)
      return some {
        declarations := [.function {
          name := nameToken.text, owner := s.owner? i, span := ⟨i, body.last⟩,
          body := body.opening, parameters := readParameters parameters, doc := s.doc }]
        scope := body.opening.map fun o => ⟨.function, nameToken.text, o, body.last⟩
        resumeAt := some (max (body.opening.getD body.last) (i + 1)) }

/-- The constants of the statement with `const` at index `i`. -/
def constantsAt (s : Site) (i : Nat) : Option (Option Recognition) := do
  let ts := s.tokens
  let previous ← prevSignificant ts i
  if previous.any (·.isKeyword "use") then return none
  let start ← statementStart ts i
  let last ← statementEnd ts (i + 1)
  let statement ← fetch ts (i + 1) (last + 1)
  return some {
    declarations := (constantNames 0 (.naming none) statement).map fun (t, j) => .constant {
      name := t.text, owner := s.owner? i, form := .const,
      span := ⟨start, last⟩, nameToken := j, doc := s.doc }
    resumeAt := some (last + 1) }

/-- The properties of the statement with a modifier at index `i`. -/
def propertiesAt (s : Site) (i : Nat) : Option (Option Recognition) := do
  let ts := s.tokens
  let rest ← fetch ts (i + 1) ts.length
  match firstVariable? rest with
  | none => return none
  | some v =>
    let last ← statementEnd ts v
    let statement ← fetch ts v (last + 1)
    return some {
      declarations := (propertyNames 0 true statement).map fun (t, j) => .property {
        name := Text.trimStartOf (· == '$') t.text, owner := (s.owner? i).getD [],
        span := ⟨i, last⟩, nameToken := j, doc := s.doc }
      resumeAt := some (last + 1) }

/-- The constant of a call of `define` at index `i`. -/
def defineAt (s : Site) (i : Nat) : Option (Option Recognition) := do
  let ts := s.tokens
  let previous ← prevSignificant ts i
  if previous.any fun p => isMemberAccess p || p.isKeyword "function" || p.isKeyword "new" then
    return none
  match ← nextSignificant ts (i + 1) with
  | none => return none
  | some (paren, open_) =>
    if paren.kind ≠ .openParen then return none
    match ← nextSignificant ts (open_ + 1) with
    | none => return none
    | some (literal, _) =>
      if literal.kind ≠ .literal then return none
      match unquote? literal.text with
      | none => return none
      | some name =>
        let close ← matchingClose ts open_
        let following ← nextSignificant ts (close + 1)
        let last := match following with
          | some (t, j) => if t.kind = .semicolon then j else close
          | none => close
        return some {
          declarations := [.constant {
            name, owner := none, form := .define, span := ⟨i, last⟩, nameToken := i,
            doc := s.doc }]
          resumeAt := some (last + 1) }

/-- What the token `t` at index `i` declares. -/
def recognize (s : Site) (i : Nat) (t : Token) : Option Recognition := do
  let found ←
    if t.isClassWord then classLikeAt s i t
    else if t.isKeyword "function" then functionAt s i
    else if t.isKeyword "const" then constantsAt s i
    else if t.isModifier && s.inClass i then propertiesAt s i
    else if t.kind == .name && Text.sameLetters t.text "define" then defineAt s i
    else some none
  return found.getD {}

/-- The pass behind the token `t` of code at index `i`. -/
def advance (p : Pass) (ts : List Token) (i : Nat) (t : Token) : Option Pass := do
  let q ← if p.resumeAt ≤ i then (recognize (p.site ts) i t).map p.add else some p
  return { q with codeSeen := true, waiting := if t.isModifier then p.waiting else none }

/-- The pass behind the token at index `i`. -/
def step (ts : List Token) (p : Pass) (i : Nat) : Option Pass := do
  let t ← ts[i]?
  let p := p.leave i
  match t.role with
  | .invisible => return p
  | .doc => return p.collect i t
  | .divider => return { p with waiting := none }
  | .code => advance p ts i t

/-- The pass over all tokens. -/
def run (ts : List Token) : Option Pass := (List.range ts.length).foldlM (step ts) {}

/-! ## No index is out of range -/

theorem fetch_eq {first stop : Nat} (h : stop ≤ ts.length) :
    fetch ts first stop = some (((ts.drop first).zipIdx first).take (stop - first)) := by
  unfold fetch
  induction hn : stop - first generalizing first with
  | zero => rfl
  | succ n ih =>
      have hlt : first < ts.length := by omega
      rw [List.range'_succ, List.mapM_cons, List.getElem?_eq_getElem hlt, ih (by omega),
        List.drop_eq_getElem_cons hlt]
      rfl

theorem fetch_rest (ts : List Token) (start : Nat) :
    fetch ts start ts.length = some ((ts.drop start).zipIdx start) := by
  rw [fetch_eq (Nat.le_refl _), List.take_of_length_le (by simp)]

theorem fetch_front {i : Nat} (h : i ≤ ts.length) :
    (fetch ts 0 i).map (·.map (·.1)) = some (ts.take i) := by
  rw [fetch_eq h, Option.map_some, List.map_take, List.zipIdx_map_fst]
  rfl

theorem nextSignificant_eq (ts : List Token) (start : Nat) :
    nextSignificant ts start = some (nextSignificant? ts start) := by
  unfold nextSignificant
  rw [fetch_rest]
  rfl

theorem prevSignificant_eq {before : Nat} (h : before ≤ ts.length) :
    prevSignificant ts before = some (prevSignificant? ts before) := by
  obtain ⟨front, hfront, hmap⟩ := Option.map_eq_some_iff.1 (fetch_front h)
  unfold prevSignificant
  rw [hfront]
  show some ((front.map (·.1)).reverse.find? _) = _
  rw [hmap]
  rfl

theorem matchingClose_eq {opening : Nat} (h : opening < ts.length) :
    matchingClose ts opening = some (Outline.matchingClose ts opening) := by
  unfold matchingClose Outline.matchingClose
  rw [fetch_rest, List.getElem?_eq_getElem h]
  simp only [Option.bind_eq_bind, Option.bind_some, List.zipIdx_map_fst, Option.pure_def]
  rw [List.drop_eq_getElem_cons h]

theorem bodyFrom_eq (ts : List Token) (start : Nat) :
    bodyFrom ts start = some (Outline.bodyFrom ts start) := by
  unfold bodyFrom Outline.bodyFrom
  rw [fetch_rest]
  simp only [Option.bind_eq_bind, Option.bind_some, Option.pure_def]
  cases hf : ((ts.drop start).zipIdx start).find? fun p =>
      p.1.kind == .openBrace || p.1.kind == .semicolon with
  | none => rfl
  | some p =>
      obtain ⟨t, j⟩ := p
      have hget := (getElem?_of_mem_zipIdx_drop (List.mem_of_find?_eq_some hf)).1
      simp only
      split
      · rw [matchingClose_eq (List.getElem?_eq_some_iff.1 hget).1]
        rfl
      · rfl

theorem statementEnd_eq (ts : List Token) (start : Nat) :
    statementEnd ts start = some (Outline.statementEnd ts start) := by
  unfold statementEnd
  rw [fetch_rest]
  simp only [Option.bind_eq_bind, Option.bind_some, List.zipIdx_map_fst]
  rfl

theorem statementStart_eq {i : Nat} (h : i ≤ ts.length) :
    statementStart ts i = some (Outline.statementStart ts i) := by
  obtain ⟨front, hfront, hmap⟩ := Option.map_eq_some_iff.1 (fetch_front h)
  unfold statementStart
  rw [hfront]
  show some (modifiersBack i i (front.map (·.1)).reverse) = _
  rw [hmap]
  rfl

theorem functionName_eq (ts : List Token) (i : Nat) :
    functionName ts i = some (functionName? ts i) := by
  have pick : ∀ word : Option (Token × Nat),
      (word.filter fun p => decide (p.1.kind = .name ∨ p.1.kind = .keyword)) =
        word.bind fun p => if p.1.kind = .name ∨ p.1.kind = .keyword then some p else none := by
    intro word
    cases word with
    | none => rfl
    | some p => simp [Option.filter]
  unfold functionName functionName?
  rw [nextSignificant_eq]
  cases nextSignificant? ts (i + 1) with
  | none => rfl
  | some p =>
      obtain ⟨t, n⟩ := p
      simp only [Option.bind_eq_bind, Option.bind_some, nextSignificant_eq, Option.pure_def, pick]
      split <;> rfl

theorem parameterTokens_eq {open_ close : Nat} (h : close < ts.length) :
    parameterTokens ts open_ close =
      some ((ts.drop (open_ + 1)).take (close - (open_ + 1))) := by
  have hmin : min close (lastIndex ts) = close := by
    unfold lastIndex
    omega
  unfold parameterTokens
  rw [hmin, fetch_eq h]
  simp only [Option.bind_eq_bind, Option.bind_some, List.map_take, List.zipIdx_map_fst,
    List.take_take, Option.pure_def]
  rw [Nat.min_eq_left (by omega)]

/-- A statement behind a token is fetched whole. -/
theorem fetch_statement {start : Nat} (h : 0 < ts.length) :
    fetch ts start (Outline.statementEnd ts start + 1) =
      some (slice ts start (Outline.statementEnd ts start)) := by
  have := statementEnd_lt h start
  rw [fetch_eq (by omega)]
  rfl

variable {s : Site} {i : Nat} {t : Token}

theorem classLikeAt_eq (hi : i < s.tokens.length) :
    classLikeAt s i t = some (Outline.classLikeAt s i t) := by
  unfold classLikeAt Outline.classLikeAt
  rw [prevSignificant_eq (Nat.le_of_lt hi)]
  simp only [Option.bind_eq_bind, Option.bind_some, nextSignificant_eq, bodyFrom_eq]
  split
  · rfl
  · cases nextSignificant? s.tokens (i + 1) with
    | none => rfl
    | some p =>
        simp only [Option.bind_some]
        split <;> rfl

theorem functionAt_eq (hi : i < s.tokens.length) :
    functionAt s i = some (Outline.functionAt s i) := by
  unfold functionAt Outline.functionAt
  simp only [prevSignificant_eq (Nat.le_of_lt hi), Option.bind_eq_bind, Option.bind_some,
    nextSignificant_eq, functionName_eq]
  split
  · rfl
  · cases functionName? s.tokens i with
    | none => rfl
    | some p =>
        simp only [Option.bind_some]
        cases hp : nextSignificant? s.tokens (p.2 + 1) with
        | none => rfl
        | some q =>
            obtain ⟨paren, o⟩ := q
            have hget := (nextSignificant?_eq_some hp).1
            simp only [Option.bind_some]
            split
            · rfl
            · rw [matchingClose_eq (List.getElem?_eq_some_iff.1 hget).1]
              simp only [Option.bind_some]
              rw [parameterTokens_eq (matchingClose_lt (by omega) o), bodyFrom_eq]
              rfl

theorem constantsAt_eq (hi : i < s.tokens.length) :
    constantsAt s i = some (Outline.constantsAt s i) := by
  unfold constantsAt Outline.constantsAt
  simp only [Option.bind_eq_bind, prevSignificant_eq (Nat.le_of_lt hi), Option.bind_some,
    statementStart_eq (Nat.le_of_lt hi), statementEnd_eq,
    fetch_statement (Nat.lt_of_le_of_lt (Nat.zero_le i) hi)]
  split <;> rfl

theorem propertiesAt_eq (hi : i < s.tokens.length) :
    propertiesAt s i = some (Outline.propertiesAt s i) := by
  unfold propertiesAt Outline.propertiesAt
  simp only [Option.bind_eq_bind, fetch_rest, Option.bind_some, statementEnd_eq,
    fetch_statement (Nat.lt_of_le_of_lt (Nat.zero_le i) hi)]
  cases firstVariable? ((s.tokens.drop (i + 1)).zipIdx (i + 1)) <;> rfl

theorem defineAt_eq (hi : i < s.tokens.length) : defineAt s i = some (Outline.defineAt s i) := by
  unfold defineAt Outline.defineAt
  simp only [prevSignificant_eq (Nat.le_of_lt hi), Option.bind_eq_bind, Option.bind_some,
    Option.bind_none, nextSignificant_eq]
  split
  · rfl
  · cases hp : nextSignificant? s.tokens (i + 1) with
    | none => rfl
    | some p =>
        obtain ⟨paren, o⟩ := p
        have hget := (nextSignificant?_eq_some hp).1
        simp only [Option.bind_some, matchingClose_eq (List.getElem?_eq_some_iff.1 hget).1]
        split
        · rfl
        · cases nextSignificant? s.tokens (o + 1) with
          | none => rfl
          | some q =>
              simp only [Option.bind_some]
              split
              · rfl
              · cases unquote? q.1.text <;> rfl

/-- **No recogniser fetches a token that is not there.** -/
theorem recognize_eq (hi : i < s.tokens.length) :
    recognize s i t = some (Outline.recognize s i t) := by
  unfold recognize Outline.recognize
  rw [classLikeAt_eq hi, functionAt_eq hi, constantsAt_eq hi, propertiesAt_eq hi, defineAt_eq hi]
  simp only [← apply_ite some, Option.bind_eq_bind, Option.bind_some, Option.pure_def,
    apply_ite fun found : Option Recognition => found.getD {}]

theorem step_eq {p : Pass} (h : ts[i]? = some t) : step ts p i = some (Pass.step ts p (t, i)) := by
  have hi : i < ((p.leave i).site ts).tokens.length := (List.getElem?_eq_some_iff.1 h).1
  unfold step Pass.step
  rw [h]
  simp only [Option.bind_eq_bind, Option.bind_some]
  cases t.role with
  | invisible => rfl
  | doc => rfl
  | divider => rfl
  | code =>
      unfold advance Pass.advance
      simp only [Option.bind_eq_bind, recognize_eq hi, Option.map_some, Option.bind_some]
      split <;> rfl

/-- **The pass fetches no token that is not there.** -/
theorem run_eq (ts : List Token) : run ts = some (Pass.run ts) := by
  have hprefix : ∀ n ≤ ts.length, (List.range n).foldlM (step ts) {} = some (Pass.upTo ts n) := by
    intro n
    induction n with
    | zero => intro _; rw [Pass.upTo_zero]; rfl
    | succ n ih =>
        intro hn
        have hget : ts[n]? = some ts[n] := List.getElem?_eq_getElem hn
        rw [List.range_succ, List.foldlM_append, ih (by omega)]
        simp only [Option.bind_eq_bind, Option.bind_some, List.foldlM_cons, step_eq hget,
          List.foldlM_nil, Pass.upTo_succ hget]
        rfl
  rw [Pass.run_eq_upTo]
  exact hprefix _ (Nat.le_refl _)

end Guarded

/-- **Declarations lie within the tokens, however malformed the source.** The range of every class,
function, property and constant holds the token that stands for it and ends at a token of the file;
and no recogniser asks for a token that is not there. -/
theorem spans_within_tokens (path source : Text) :
    let f := SourceFile.parse path source
    (∀ d ∈ f.outline.declarations,
      d.span.first ≤ d.anchor ∧ d.anchor ≤ d.span.last ∧ d.span.last < f.tokens.length) ∧
    (Guarded.run f.tokens).map (·.outline) = some f.outline := by
  intro f
  constructor
  · intro d hd
    obtain ⟨i, t, ht, hd⟩ := Pass.mem_declarations_run.1 hd
    exact (Pass.recognized_foundAt ht).span_bounds ht hd
  · rw [Guarded.run_eq]
    rfl

end Outline

end DocLint
