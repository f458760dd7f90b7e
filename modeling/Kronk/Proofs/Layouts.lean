import Kronk.Proofs.Termination

/-!
# Texts with another layout

Comments, blank lines behind other new lines and carriage returns are invisible.  A text without its
comments and with a carriage return before each new line is scanned to the same tokens, up to new
lines directly behind another one; and readers pass over these at once, wherever they come to one.
-/

namespace Kronk

/-! ## Scanning -/

namespace Token

/-- What a character of a text belongs to. -/
inductive Region where
  | code
  | string
  | comment

/-- The text without its comments, with a carriage return before each new line that is in no
string. -/
def relaid : Region → List Char → List Char
  | _, [] => []
  | .code, c :: rest =>
    if c = '\n' then '\r' :: '\n' :: relaid .code rest
    else if c = '#' then relaid .comment rest
    else c :: relaid (if c = '"' then .string else .code) rest
  | .string, c :: rest => c :: relaid (if c = '"' then .code else .string) rest
  | .comment, c :: rest =>
    if c = '\n' then '\r' :: '\n' :: relaid .code rest else relaid .comment rest

/-- The tokens without new lines directly behind another one. -/
def foldLines : (behindLine : Bool) → List Token → List Token
  | _, [] => []
  | behindLine, token :: rest =>
    if token.lexeme = .newLine then
      if behindLine then foldLines true rest else token :: foldLines true rest
    else token :: foldLines false rest

/-- The same step, with another text behind the token. -/
def Step.before (change : List Char → List Char) : Step → Step
  | .token found line rest => .token found line (change rest)
  | .finish found => .finish found
  | .failure error line => .failure error line

variable {c : Char} {text tail chars : List Char}

theorem relaid_plain {rest : List Char} (noLine : c ≠ '\n') (noComment : c ≠ '#')
    (noString : c ≠ '"') : relaid .code (c :: rest) = c :: relaid .code rest := by
  simp [relaid, noLine, noComment, noString]

private theorem relaid_comment {rest : List Char} (inside : ∀ d ∈ chars, (d != '\n') = true) :
    relaid .comment (chars ++ rest) = relaid .comment rest := by
  induction chars with
  | nil => rfl
  | cons c chars ih =>
    obtain ⟨noLine, inside⟩ := List.forall_mem_cons.mp inside
    simp [relaid, bne_iff_ne.mp noLine, ih inside]

private theorem relaid_string {rest : List Char} (inside : ∀ d ∈ chars, (d != '"') = true) :
    relaid .string (chars ++ rest) = chars ++ relaid .string rest := by
  induction chars with
  | nil => rfl
  | cons c chars ih =>
    obtain ⟨noQuote, inside⟩ := List.forall_mem_cons.mp inside
    simp [relaid, bne_iff_ne.mp noQuote, ih inside]

/-- The text starts with its first character, or with a carriage return instead of a new line or a
comment. -/
theorem head_relaid (text : List Char) :
    ∀ d ∈ (relaid .code text).head?, d = '\r' ∨ d ∈ text.head? := by
  have inComment : ∀ text : List Char, ∀ d ∈ (relaid .comment text).head?, d = '\r' := by
    intro text
    induction text with
    | nil => simp [relaid]
    | cons c rest ih =>
      by_cases isLine : c = '\n'
      · simp [relaid, isLine]
      · simpa [relaid, isLine] using ih
  intro d isHead
  cases text with
  | nil => cases isHead
  | cons c rest =>
    by_cases isLine : c = '\n'
    · simp only [relaid, isLine, if_true, List.head?_cons, Option.mem_some] at isHead
      exact .inl isHead.symm
    by_cases isComment : c = '#'
    · simp only [relaid, isComment, if_true] at isHead
      exact .inl (inComment rest d isHead)
    · simp only [relaid, isLine, isComment, if_false] at isHead
      exact .inr isHead

/-- A run of characters in code is the same. -/
theorem span_relaid {p : Char → Bool}
    (outside : p '\n' = false ∧ p '\r' = false ∧ p '#' = false ∧ p '"' = false) (text : List Char) :
    (relaid .code text).takeWhile p = text.takeWhile p ∧
      (relaid .code text).dropWhile p = relaid .code (text.dropWhile p) := by
  obtain ⟨run, rest, rfl, inside, stop⟩ := exists_stop p text
  have same : relaid .code (run ++ rest) = run ++ relaid .code rest := by
    clear stop
    induction run with
    | nil => rfl
    | cons c run ih =>
      obtain ⟨holds, inside⟩ := List.forall_mem_cons.mp inside
      rw [List.cons_append, relaid_plain, ih inside]
      · rfl
      · rintro rfl
        simp [outside.1] at holds
      · rintro rfl
        simp [outside.2.2.1] at holds
      · rintro rfl
        simp [outside.2.2.2] at holds
  have stops : ∀ d ∈ (relaid .code rest).head?, p d = false := by
    intro d isHead
    rcases head_relaid rest d isHead with rfl | isFirst
    · exact outside.2.1
    · exact stop d isFirst
  rw [same, (takeWhile_of_stop inside stops).1, (takeWhile_of_stop inside stops).2,
    (takeWhile_of_stop inside stop).1, (takeWhile_of_stop inside stop).2]
  exact ⟨rfl, rfl⟩

theorem numberRun_relaid (previous : Char) (text : List Char) :
    numberRun previous (relaid .code text) =
      ((numberRun previous text).1, relaid .code (numberRun previous text).2) := by
  fun_induction numberRun previous text with
  | case1 => rfl
  | case2 previous c rest belongs run after found ih =>
    rw [found] at ih
    rw [relaid_plain, numberRun, if_pos belongs, ih]
    · rintro rfl
      cases belongs
    · rintro rfl
      cases belongs
    · rintro rfl
      cases belongs
  | case3 previous c rest ends =>
    cases found : relaid .code (c :: rest) with
    | nil => rfl
    | cons d after =>
      have isHead := head_relaid (c :: rest) d (by rw [found]; rfl)
      rw [numberRun, if_neg]
      rcases isHead with rfl | isFirst
      · intro belongs
        cases belongs
      · cases isFirst
        exact ends

private theorem scanFrom_alone (line : Nat) (mark : isMark c = true)
    (stop : ∀ d ∈ tail.head?, d ≠ ':' ∧ isOperatorSuffix d = false) : scanFrom line c tail =
      .token ⟨if startsOperator c then .operator (String.ofList [c]) else .char c, line⟩ line
        tail := by
  rw [scanFrom_mark mark]
  cases tail with
  | nil => cases startsOperator c <;> simp
  | cons d after =>
    obtain ⟨noScope, noPair⟩ := stop d rfl
    cases startsOperator c <;> simp [noScope, noPair]

theorem scanFrom_mark_relaid (line : Nat) (mark : isMark c = true) (tail : List Char) :
    scanFrom line c (relaid .code tail) = (scanFrom line c tail).before (relaid .code) := by
  by_cases joined : ∃ d after, tail = d :: after ∧ (d = ':' ∨ isOperatorSuffix d = true)
  · obtain ⟨d, after, rfl, joins⟩ := joined
    have plain : d ≠ '\n' ∧ d ≠ '#' ∧ d ≠ '"' := by
      refine ⟨?_, ?_, ?_⟩ <;> rintro rfl <;> rcases joins with isColon | isSuffix <;> contradiction
    rw [relaid_plain plain.1 plain.2.1 plain.2.2, scanFrom_mark mark, scanFrom_mark mark]
    simp only [List.head?_cons, List.tail_cons]
    split
    · rfl
    split
    · split
      · rfl
      · rw [Step.before, relaid_plain plain.1 plain.2.1 plain.2.2]
    · rw [Step.before, relaid_plain plain.1 plain.2.1 plain.2.2]
  · have stop : ∀ d ∈ tail.head?, d ≠ ':' ∧ isOperatorSuffix d = false := by
      intro d isHead
      obtain ⟨after, rfl⟩ := List.head?_eq_some_iff.mp isHead
      refine ⟨fun isColon => joined ⟨d, after, rfl, .inl isColon⟩, ?_⟩
      exact Bool.eq_false_iff.mpr fun isSuffix => joined ⟨d, after, rfl, .inr isSuffix⟩
    rw [scanFrom_alone line mark stop, scanFrom_alone line mark]
    · rfl
    · intro d isHead
      rcases head_relaid tail d isHead with rfl | isFirst
      · exact ⟨by decide, rfl⟩
      · exact stop d isFirst

/-- A step on code is the same, apart from the text behind it. -/
theorem scanFrom_relaid (line : Nat) (noLine : c ≠ '\n') (noComment : c ≠ '#')
    (noString : c ≠ '"') (tail : List Char) :
    scanFrom line c (relaid .code tail) = (scanFrom line c tail).before (relaid .code) := by
  by_cases mark : isMark c = true
  · exact scanFrom_mark_relaid line mark tail
  by_cases starts : isWordStart c = true
  · unfold scanFrom
    rw [if_pos starts, if_pos starts, (span_relaid ⟨rfl, rfl, rfl, rfl⟩ tail).1,
      (span_relaid ⟨rfl, rfl, rfl, rfl⟩ tail).2]
    rfl
  · have isDigit : Decimal.isDigit c = true := by
      simpa [isMark, noLine, noComment, noString, starts] using mark
    rw [scanFrom_digit line isDigit, scanFrom_digit line isDigit, numberRun_relaid]
    dsimp only
    cases numberValue? (c :: (numberRun c tail).1) <;> rfl

theorem scanFrom_string_relaid (line : Nat) (tail : List Char) :
    scanFrom line '"' (relaid .string tail) = (scanFrom line '"' tail).before (relaid .code) := by
  obtain ⟨content, after, rfl, inside, stop⟩ := exists_stop (· != '"') tail
  rw [relaid_string inside]
  cases after with
  | nil =>
    unfold scanFrom
    rw [relaid, (takeWhile_of_stop inside stop).1, (takeWhile_of_stop inside stop).2]
    rfl
  | cons quote after =>
    obtain rfl : quote = '"' := by simpa using stop quote rfl
    have noQuote : '"' ∉ content := fun member => by simpa using inside _ member
    rw [relaid, if_pos rfl, scanFrom_string noQuote, scanFrom_string noQuote]
    rfl

/-! ## Folding new lines -/

def folded (behindLine : Bool) (scan : Scan) : Scan :=
  ⟨foldLines behindLine scan.tokens, scan.failure⟩

def prepend (found : Token) (scan : Scan) : Scan := ⟨found :: scan.tokens, scan.failure⟩

theorem folded_prepend_line {found : Token} (isLine : found.lexeme = .newLine) (behindLine : Bool)
    (scan : Scan) : folded behindLine (prepend found scan) =
      if behindLine then folded true scan else prepend found (folded true scan) := by
  cases behindLine <;> simp [folded, prepend, foldLines, isLine]

private theorem folded_prepend {one other : Scan}
    (same : ∀ behindLine, folded behindLine one = folded behindLine other) (found : Token)
    (behindLine : Bool) :
    folded behindLine (prepend found one) = folded behindLine (prepend found other) := by
  by_cases isLine : found.lexeme = .newLine
  · rw [folded_prepend_line isLine, folded_prepend_line isLine, same]
  · have plain :
        ∀ scan, folded behindLine (prepend found scan) = prepend found (folded false scan) := by
      intro scan
      simp [folded, prepend, foldLines, isLine]
    rw [plain, plain, same]

theorem scanLines_blank (line : Nat) (blank : isBlank c = true) (text : List Char) :
    scanLines line (c :: text) = scanLines line text := by
  rw [scanLines_eq, scanLines_eq line text]
  simp [scanStep, blank]

theorem scanLines_newLine (line : Nat) (text : List Char) :
    scanLines line ('\n' :: text) = prepend ⟨.newLine, line⟩ (scanLines (line + 1) text) :=
  scanLines_eq line _

/-- New lines and blanks are folded behind a new line. -/
theorem folded_blank_lines (line : Nat) (text : List Char) :
    folded true (scanLines line (relaid .code text)) =
      folded true (scanLines (line + lineCount (text.takeWhile fun d => d == '\n' || isBlank d))
        (relaid .code (text.dropWhile fun d => d == '\n' || isBlank d))) := by
  induction text generalizing line with
  | nil => rfl
  | cons c rest ih =>
    by_cases isLine : c = '\n'
    · subst isLine
      have counts : ∀ run, line + lineCount ('\n' :: run) = line + 1 + lineCount run := by
        intro run
        simp only [lineCount, List.count_cons_self]
        omega
      rw [relaid, if_pos rfl, scanLines_blank line rfl, scanLines_newLine,
        folded_prepend_line rfl, if_pos rfl, ih, List.takeWhile_cons, List.dropWhile_cons]
      simp only [beq_self_eq_true, Bool.true_or, if_true, counts]
    by_cases blank : isBlank c = true
    · have plain : c ≠ '#' ∧ c ≠ '"' := by
        constructor <;> rintro rfl <;> cases blank
      rw [relaid_plain isLine plain.1 plain.2, scanLines_blank line blank, ih,
        List.takeWhile_cons, List.dropWhile_cons]
      simp [blank, lineCount, isLine]
    · simp [isLine, blank, lineCount]

theorem scanLines_comment (line : Nat) (inside : ∀ d ∈ chars, (d != '\n') = true)
    (text : List Char) : scanLines line ('#' :: (chars ++ '\n' :: text)) = prepend ⟨.newLine, line⟩
        (scanLines (line + 1 + lineCount (text.takeWhile fun d => d == '\n' || isBlank d))
          (text.dropWhile fun d => d == '\n' || isBlank d)) := by
  have step : scanStep line ('#' :: (chars ++ '\n' :: text)) =
      .token ⟨.newLine, line⟩
        (line + lineCount ('\n' :: text.takeWhile fun d => d == '\n' || isBlank d))
        (text.dropWhile fun d => d == '\n' || isBlank d) := by
    rw [scanStep_of_noBlank line rfl]
    unfold scanFrom
    rw [(takeWhile_of_stop inside (by simp)).2]
    rfl
  rw [scanLines_eq, step]
  simp only [lineCount, List.count_cons_self, prepend]
  rw [Nat.add_assoc, Nat.add_comm 1]

private theorem scanLines_comment_end (line : Nat) (inside : ∀ d ∈ chars, (d != '\n') = true) :
    scanLines line ('#' :: (chars ++ [])) = scanLines line [] := by
  rw [scanLines_eq, scanStep_of_noBlank line rfl, scanLines_eq line []]
  unfold scanFrom
  rw [(takeWhile_of_stop inside (by simp)).2]
  rfl

private theorem scanStep_relaid (line : Nat) (noLine : c ≠ '\n') (noComment : c ≠ '#')
    (noBlank : isBlank c = false) (tail : List Char) : scanStep line (relaid .code (c :: tail)) =
      (scanStep line (c :: tail)).before (relaid .code) := by
  by_cases isString : c = '"'
  · subst isString
    rw [relaid, if_neg noLine, if_neg noComment, if_pos rfl, scanStep_of_noBlank line rfl,
      scanStep_of_noBlank line rfl, scanFrom_string_relaid]
  · rw [relaid_plain noLine noComment isString, scanStep_of_noBlank line noBlank,
      scanStep_of_noBlank line noBlank, scanFrom_relaid line noLine noComment isString]

/-- Without its comments and with carriage returns, a text is scanned to the same tokens, up to new
lines behind others. -/
theorem folded_relaid (line : Nat) (behindLine : Bool) (text : List Char) :
    folded behindLine (scanLines line (relaid .code text)) =
      folded behindLine (scanLines line text) := by
  cases text with
  | nil => rfl
  | cons c tail =>
    by_cases isLine : c = '\n'
    · subst isLine
      rw [relaid, if_pos rfl, scanLines_blank line rfl, scanLines_newLine, scanLines_newLine]
      exact folded_prepend (fun behindLine => folded_relaid (line + 1) behindLine tail) _ _
    by_cases isComment : c = '#'
    · subst isComment
      rw [relaid, if_neg isLine, if_pos rfl]
      obtain ⟨chars, after, split, inside, stop⟩ := exists_stop (· != '\n') tail
      rw [split, relaid_comment inside]
      cases after with
      | nil => rw [scanLines_comment_end line inside, relaid]
      | cons first after =>
        obtain rfl : first = '\n' := by simpa using stop first rfl
        rw [relaid, if_pos rfl, scanLines_blank line rfl, scanLines_newLine,
          scanLines_comment line inside, folded_prepend_line rfl, folded_prepend_line rfl,
          folded_blank_lines, folded_relaid]
    by_cases blank : isBlank c = true
    · have noString : c ≠ '"' := by
        rintro rfl
        cases blank
      rw [relaid_plain isLine isComment noString, scanLines_blank line blank,
        scanLines_blank line blank, folded_relaid]
    rw [scanLines_eq, scanStep_relaid line isLine isComment (by simpa using blank),
      scanLines_eq line (c :: tail)]
    cases found : scanStep line (c :: tail) with
    | token first next rest =>
      exact folded_prepend (fun behindLine => folded_relaid next behindLine rest) _ _
    | finish last => rfl
    | failure error reached => rfl
termination_by text.length
decreasing_by
  · simp
  · have shorter := length_dropWhile_le (fun d => d == '\n' || isBlank d) after
    simp only [List.length_cons, split, List.length_append]
    omega
  · simp
  · exact length_scanStep_lt found

end Token

namespace Source

/-! ## Reading -/

private theorem nextToken_cons {token : Token} (skipping : Bool) (rest : List Token)
    (noBackslash : ¬token.isChar '\\' = true) : nextToken skipping (token :: rest) =
      if skipping && token.lexeme == .newLine then nextToken true rest else .to token rest := by
  rw [nextToken.eq_def]
  simp only [noBackslash, Bool.false_eq_true, if_false]

/-- Moving on leads to the same token where new lines behind others are missing. -/
theorem nextToken_foldLines (skipping behindLine : Bool) (tokens : List Token)
    (skips : behindLine = true → skipping = true) :
    nextToken skipping (Token.foldLines behindLine tokens) =
      (nextToken skipping tokens).along fun token =>
        Token.foldLines (token.lexeme == .newLine) := by
  fun_induction nextToken skipping tokens generalizing behindLine with
  | case1 => rfl
  | case2 skipping token backslash =>
    have noLine := (Setting.Pairs.isSolid_of_isChar backslash).2
    simp [Token.foldLines, noLine, nextToken, backslash, Move.along]
  | case3 skipping first backslash second later newLine ih =>
    have noLine := (Setting.Pairs.isSolid_of_isChar backslash).2
    rw [← ih true fun _ => rfl]
    simp [Token.foldLines, noLine, newLine, nextToken, backslash]
  | case4 skipping first backslash second later noLineSecond =>
    have noLine := (Setting.Pairs.isSolid_of_isChar backslash).2
    simp [Token.foldLines, noLine, noLineSecond, nextToken, backslash, Move.along]
  | case5 skipping first rest noBackslash newLine ih =>
    obtain ⟨rfl, isLine⟩ : skipping = true ∧ first.lexeme = .newLine := by simpa using newLine
    rw [← ih true fun _ => rfl]
    cases behindLine <;> simp [Token.foldLines, isLine, nextToken_cons, noBackslash]
  | case6 skipping first rest noBackslash stays =>
    by_cases isLine : first.lexeme = .newLine
    · have notSkipping : skipping = false := by simpa [isLine] using stays
      have notBehind : behindLine = false := by
        rw [Bool.eq_false_iff]
        intro isBehind
        simp [skips isBehind] at notSkipping
      simp [Token.foldLines, isLine, notBehind, notSkipping, nextToken_cons, noBackslash,
        Move.along]
    · have noLine : (first.lexeme == .newLine) = false := beq_false_of_ne isLine
      simp [Token.foldLines, isLine, nextToken_cons, noBackslash, Move.along, noLine]

def Layout.folding : Layout where
  behind token := Token.foldLines (token.lexeme == .newLine)
  moves skipping token rest skips := nextToken_foldLines skipping _ rest (by simpa using skips)

/-- Two readings with the same tokens up to new lines behind others. -/
structure Reading.Alike (one other : Reading) : Prop where
  closed : one.Closed
  otherClosed : other.Closed
  same : Layout.folding.view one = Layout.folding.view other

/-- Two outcomes with the same value or failure. -/
inductive SameOutcome {α : Type} :
    EStateM.Result Failure Reading α → EStateM.Result Failure Reading α → Prop
  | ok {value : α} {one other : Reading} : one.Alike other →
      SameOutcome (.ok value one) (.ok value other)
  | error {failure : Failure} {one other : Reading} :
      Layout.folding.view one = Layout.folding.view other →
      SameOutcome (.error failure one) (.error failure other)

namespace Setting

/-- The same surroundings, with and without new lines behind others. -/
def folding (surroundings : Surroundings) : Setting where
  vantage := .single surroundings
  layout := .folding
  bounded := True

/-- What two readers do on readings that are alike, if they have a common counterpart. -/
theorem Pairs.alike {α : Type} {surroundings : Surroundings} {one another common : Reader α}
    {before beforeOther : Reading → Prop} {reading other : Reading}
    (pairs : (folding surroundings).Pairs before one common fun _ after => after.Closed)
    (otherPairs :
      (folding surroundings).Pairs beforeOther another common fun _ after => after.Closed)
    (start : before reading) (otherStart : beforeOther other)
    (sameView : Layout.folding.view reading = Layout.folding.view other) :
    SameOutcome (one surroundings reading) (another surroundings other) := by
  obtain ⟨same, reached⟩ := pairs reading start
  obtain ⟨otherSame, otherReached⟩ := otherPairs other otherStart
  have views : Layout.folding.outcome (one surroundings reading) =
      Layout.folding.outcome (another surroundings other) := by
    refine same.symm.trans (Eq.trans ?_ otherSame)
    exact congrArg (common surroundings) sameView
  change Reached _ _ (one surroundings reading) at reached
  change Reached _ _ (another surroundings other) at otherReached
  cases outcome : one surroundings reading with
  | ok value final =>
    cases otherOutcome : another surroundings other with
    | ok same otherFinal =>
      rw [outcome] at reached views
      rw [otherOutcome] at otherReached views
      obtain ⟨rfl, sameView⟩ := EStateM.Result.ok.inj views
      exact .ok ⟨reached, otherReached, sameView⟩
    | error failure otherFinal =>
      rw [outcome, otherOutcome] at views
      cases views
  | error failure final =>
    cases otherOutcome : another surroundings other with
    | ok same otherFinal =>
      rw [outcome, otherOutcome] at views
      cases views
    | error same otherFinal =>
      rw [outcome, otherOutcome] at views
      obtain ⟨rfl, sameView⟩ := EStateM.Result.error.inj views
      exact .error sameView

end Setting

theorem Reading.Closed.holds {reading : Reading} (closed : reading.Closed)
    (surroundings : Surroundings) :
    (Setting.folding surroundings).Holds [] reading.rest.length reading :=
  ⟨False.elim, fun _ => ⟨closed, Nat.le_refl _⟩⟩

theorem Reading.Alike.statement {one other : Reading} (alike : one.Alike other)
    (surroundings : Surroundings) :
    SameOutcome (one.statement surroundings) (other.statement surroundings) := by
  have pairs : ∀ (reading : Reading) fuel, reading.fuel ≤ fuel →
    (Setting.folding surroundings).Pairs
      ((Setting.folding surroundings).Holds [] reading.rest.length)
      (Reader.statement reading.fuel) (Reader.statement fuel) fun _ after => after.Closed := by
    intro reading fuel more
    have enough : 8 * reading.rest.length + 5 ≤ reading.fuel := by
      unfold Reading.fuel
      omega
    refine (((Setting.folding surroundings).statements _ _).statement
      (.inr ⟨trivial, enough, Nat.le_trans enough more⟩)).weaken (fun _ holds => holds) ?_
    intro found reading reached
    cases found with
    | none => exact (reached.1.within trivial).closed
    | some stmt => exact (reached.1.holds.within trivial).closed
  exact Setting.Pairs.alike (pairs one _ (Nat.le_add_right _ other.fuel))
    (pairs other _ (Nat.le_add_left _ _)) (alike.closed.holds _) (alike.otherClosed.holds _)
    alike.same

/-- Two texts whose tokens are the same up to new lines behind others start alike. -/
theorem Reading.start_sameOutcome {one other : String}
    (same : Token.folded false (Token.scan one) = Token.folded false (Token.scan other))
    (surroundings : Surroundings) (signatures : Table (List String)) :
    SameOutcome (Reading.start surroundings (Token.scan one) signatures)
      (Reading.start surroundings (Token.scan other) signatures) := by
  have pairs : ∀ text, (Setting.folding surroundings).Pairs
      (fun reading => (Setting.folding surroundings).Holds [] (Token.scan text).tokens.length
        reading ∧
        (reading.current.lexeme = .newLine → false = true))
      (Reader.move false) (Reader.move false) fun _ after => after.Closed := by
    intro text
    exact (Setting.Pairs.move false).weaken (fun _ holds => holds)
      fun _ _ reached => (reached.within trivial).closed
  have start : ∀ text, (Setting.folding surroundings).Holds [] (Token.scan text).tokens.length
      (Reading.unread (Token.scan text) signatures) ∧
        (Lexeme.endOfFile = .newLine → false = true) :=
    fun text => ⟨(scan_closed text signatures).holds surroundings, fun isLine => by cases isLine⟩
  refine Setting.Pairs.alike (pairs one) (pairs other) (start one) (start other) ?_
  obtain ⟨tokens, failure⟩ := Scan.mk.inj same
  simp only [Layout.view, failure]
  exact congrArg (fun rest => Reading.mk _ rest _ _ _) tokens

theorem ofReading_alike {one other : Reading} (failure : Option Failure)
    (same : Layout.folding.view one = Layout.folding.view other) :
    Program.ofReading one failure = Program.ofReading other failure := by
  have views := congrArg (Program.ofReading · failure) same
  exact views

/-- Statements read one after another from readings that are alike are the same. -/
theorem Reading.Alike.readFrom {one other : Reading} (alike : one.Alike other)
    (surroundings : Surroundings) {fuel more : Nat} (enough : one.rest.length < fuel)
    (otherEnough : other.rest.length < more) :
    Program.readFrom surroundings fuel one = Program.readFrom surroundings more other := by
  induction fuel generalizing one other more with
  | zero => omega
  | succ fuel ih =>
    obtain ⟨more, rfl⟩ := Nat.exists_eq_add_one.mpr (Nat.zero_lt_of_lt otherEnough)
    have same := alike.statement surroundings
    have advances := alike.closed.advances surroundings
    have otherAdvances := alike.otherClosed.advances surroundings
    rw [Program.readFrom, Program.readFrom]
    generalize one.statement surroundings = outcome at same advances
    generalize other.statement surroundings = otherOutcome at same otherAdvances
    cases same with
    | error sameView => exact ofReading_alike _ sameView
    | @ok found final otherFinal stillAlike =>
      cases found with
      | none => exact ofReading_alike none stillAlike.same
      | some stmt =>
        have later := ih stillAlike
          (Nat.lt_of_lt_of_le advances.2 (Nat.le_of_lt_succ enough))
          (Nat.lt_of_lt_of_le otherAdvances.2 (Nat.le_of_lt_succ otherEnough))
        simp only [later]

/-- The layout of a text is invisible: without its comments, and with a carriage return before each
new line that is in no string, the text is read to the same statements with the same lines, and
fails with the same failure.  This also holds where each statement has surroundings of its own. -/
theorem layout_invisible (text : String) (surroundings : Surroundings) :
    Program.read surroundings (String.ofList (Token.relaid .code text.toList)) =
        Program.read surroundings text ∧
      (∀ signatures, SameOutcome
        (Reading.start surroundings
          (Token.scan (String.ofList (Token.relaid .code text.toList))) signatures)
        (Reading.start surroundings (Token.scan text) signatures)) ∧
      ∀ one other : Reading, one.Alike other →
        SameOutcome (one.statement surroundings) (other.statement surroundings) := by
  have same : Token.folded false (Token.scan (String.ofList (Token.relaid .code text.toList))) =
      Token.folded false (Token.scan text) := by
    rw [Token.scan, String.toList_ofList]
    exact Token.folded_relaid 1 false text.toList
  have starts := Reading.start_sameOutcome same surroundings
  refine ⟨?_, starts, fun _ _ alike => alike.statement surroundings⟩
  have first := starts surroundings.module.signatures
  have within := start_endsWithin surroundings text surroundings.module.signatures
  have otherWithin := start_endsWithin surroundings
    (String.ofList (Token.relaid .code text.toList)) surroundings.module.signatures
  unfold Program.read
  dsimp only
  generalize Reading.start surroundings (Token.scan text) _ = outcome at first within
  generalize Reading.start surroundings _ _ = otherOutcome at first otherWithin
  cases first with
  | error sameView => exact ofReading_alike _ sameView
  | ok alike =>
    exact alike.readFrom surroundings (Nat.lt_succ_of_le otherWithin.length_le)
      (Nat.lt_succ_of_le within.length_le)

end Source

end Kronk
