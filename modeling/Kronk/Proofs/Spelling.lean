import Kronk.Token.Scan

/-!
# Spelled lexemes are scanned back

A lexeme is spelled by characters, and a line of lexemes by their spellings with blanks in front of
them.  Where two spellings touch, the second one must not start with a character that the scanner
would add to the first.  Scanning such a line gives its lexemes and the end of the text.
-/

namespace Kronk.Token

/-! ## Spellings -/

/-- The characters are a letter or underscore with letters, underscores and digits behind it. -/
def WordChars (chars : List Char) : Prop :=
  ∃ c tail, chars = c :: tail ∧ isWordStart c = true ∧ tail.all isWordChar = true

/-- The scanner takes all of the characters for one number. -/
def IsNumeral (chars : List Char) : Prop :=
  ∃ c tail, chars = c :: tail ∧ Decimal.isDigit c = true ∧ numberRun c tail = (tail, [])

/-- The characters that stand for themselves in an expression. -/
def delimiters : List Char := ['(', ')', '[', ']', ',', ':', '.']

def Spells : Lexeme → List Char → Prop
  | .identifier name, chars =>
    chars = name.toList ∧ WordChars chars ∧ ofWord name = .identifier name
  | .boolean value, chars => chars = (booleanSpelling value).toList
  | .number spelling value, chars =>
    chars = spelling.toList ∧ IsNumeral chars ∧ numberValue? chars = some value
  | .string content, chars => chars = '"' :: content.toList ++ ['"'] ∧ '"' ∉ content.toList
  | .operator spelling, chars =>
    chars = spelling.toList ∧ ∃ operator : Operator, operator.spelling = spelling
  | .scope, chars => chars = [':', ':']
  | .char c, chars => chars = [c] ∧ c ∈ delimiters
  | _, _ => False

/-- Whether a character directly behind a lexeme is no part of it. -/
def endsBefore : Lexeme → Char → Bool
  | .identifier _, d | .boolean _, d => !isWordChar d
  | .number _ _, d => !(Decimal.isDigit d || d == '.' || d == 'e')
  | .operator spelling, d =>
    if spelling.toList.all isWordChar then !isWordChar d
    else spelling.length == 2 || !isOperatorSuffix d
  | .char c, d => c != ':' || d != ':'
  | _, _ => true

/-- A line of lexemes: each one is spelled with blanks in front of it, and there may be blanks at
the end. -/
inductive Spaced : List Lexeme → List Char → Prop
  | nil {blanks : List Char} : (∀ c ∈ blanks, isBlank c = true) → Spaced [] blanks
  | cons {blanks chars text : List Char} {lexeme : Lexeme} {rest : List Lexeme} :
      (∀ c ∈ blanks, isBlank c = true) → Spells lexeme chars →
      (∀ d ∈ text.head?, endsBefore lexeme d = true) → Spaced rest text →
      Spaced (lexeme :: rest) (blanks ++ (chars ++ text))

/-! ## Scanning one spelling -/

variable {c : Char} {run rest chars : List Char} {line : Nat} {lexemes : List Lexeme}

theorem not_isBlank {p : Char → Bool} (holds : p c = true)
    (blanks : p ' ' = false ∧ p '\t' = false ∧ p '\r' = false) : isBlank c = false := by
  rw [Bool.eq_false_iff]
  intro blank
  simp only [isBlank, Bool.or_eq_true, beq_iff_eq] at blank
  rcases blank with (rfl | rfl) | rfl
  · simp [blanks.1] at holds
  · simp [blanks.2.1] at holds
  · simp [blanks.2.2] at holds

theorem takeWhile_of_stop {p : Char → Bool} (all : ∀ c ∈ run, p c = true)
    (stop : ∀ d ∈ rest.head?, p d = false) :
    (run ++ rest).takeWhile p = run ∧ (run ++ rest).dropWhile p = rest := by
  rw [List.takeWhile_append_of_pos all, List.dropWhile_append_of_pos all]
  cases rest with
  | nil => exact ⟨List.append_nil _, rfl⟩
  | cons d rest =>
    have fails : ¬p d = true := by simp [stop d rfl]
    rw [List.takeWhile_cons_of_neg fails, List.dropWhile_cons_of_neg fails, List.append_nil]
    exact ⟨rfl, rfl⟩

theorem scanFrom_word (line : Nat) (isWord : WordChars chars)
    (stop : ∀ d ∈ rest.head?, isWordChar d = false) :
    ∃ c tail, chars = c :: tail ∧ isBlank c = false ∧ scanFrom line c (tail ++ rest) =
      .token ⟨ofWord (String.ofList chars), line⟩ line rest := by
  obtain ⟨c, tail, rfl, starts, all⟩ := isWord
  obtain ⟨taken, dropped⟩ := takeWhile_of_stop (List.all_eq_true.mp all) stop
  refine ⟨c, tail, rfl, not_isBlank starts ⟨rfl, rfl, rfl⟩, ?_⟩
  unfold scanFrom
  rw [if_pos starts, taken, dropped]

theorem getLast?_ne_of_marksFit {marks : NumberMarks} {previous : Option Char}
    (fits : marksFit marks previous run = true) : run.getLast? ≠ some 'e' := by
  induction run generalizing marks previous with
  | nil => simp
  | cons c rest ih =>
    intro isLast
    cases rest with
    | nil =>
      obtain rfl : c = 'e' := by simpa using isLast
      simp [marksFit] at fits
    | cons d rest =>
      rw [List.getLast?_cons_cons] at isLast
      unfold marksFit at fits
      split at fits
      · simp only [Bool.and_eq_true] at fits
        exact ih fits.2 isLast
      · split at fits
        · simp only [Bool.and_eq_true] at fits
          exact ih fits.2 isLast
        · split at fits
          · simp only [Bool.and_eq_true] at fits
            exact ih fits.2 isLast
          · exact ih fits isLast

/-- A run of a number ends before a character that is no part of a number. -/
theorem numberRun_append {previous : Char} (whole : numberRun previous run = (run, []))
    (stop : ∀ d ∈ rest.head?, (Decimal.isDigit d || d == '.' || d == 'e') = false)
    (noMark : (previous :: run).getLast? ≠ some 'e') :
    numberRun previous (run ++ rest) = (run, rest) := by
  induction run generalizing previous with
  | nil =>
    cases rest with
    | nil => rfl
    | cons d rest =>
      have fails := stop d rfl
      have notMark : (previous == 'e') = false := by simpa using noMark
      simp [numberRun, fails, notMark]
  | cons c run ih =>
    rw [numberRun] at whole
    split at whole
    · rename_i belongs
      have tail : numberRun c run = (run, []) := by
        simp only [Prod.mk.injEq, List.cons.injEq, true_and] at whole
        exact Prod.ext whole.1 whole.2
      rw [List.getLast?_cons_cons] at noMark
      rw [List.cons_append, numberRun, if_pos belongs, ih tail noMark]
    · cases whole

theorem isWordStart_of_isDigit (isDigit : Decimal.isDigit c = true) : isWordStart c = false := by
  have notMark : c ≠ '_' := by
    rintro rfl
    cases isDigit
  have above : 48 ≤ c.toNat ∧ c.toNat ≤ 57 := by
    simpa [Decimal.isDigit, Char.le_def, UInt32.le_iff_toNat_le] using isDigit
  simp [isWordStart, Char.le_def, UInt32.le_iff_toNat_le, notMark]
  omega

theorem scanFrom_digit (line : Nat) (isDigit : Decimal.isDigit c = true) (tail : List Char) :
    scanFrom line c tail = match numberValue? (c :: (numberRun c tail).1) with
      | some value => .token ⟨.number (String.ofList (c :: (numberRun c tail).1)) value, line⟩ line
        (numberRun c tail).2
      | none => .failure (.badNumber (String.ofList (c :: (numberRun c tail).1))) line := by
  have noWord := isWordStart_of_isDigit isDigit
  have noQuote : (c == '"') = false := by
    apply beq_false_of_ne
    rintro rfl
    cases isDigit
  unfold scanFrom
  exact (if_neg (by simp [noWord])).trans ((if_neg (by simp [noQuote])).trans (if_pos isDigit))

theorem scanFrom_number (line : Nat) {value : Binary64} (isNumeral : IsNumeral chars)
    (accepted : numberValue? chars = some value)
    (stop : ∀ d ∈ rest.head?, (Decimal.isDigit d || d == '.' || d == 'e') = false) :
    ∃ c tail, chars = c :: tail ∧ isBlank c = false ∧ scanFrom line c (tail ++ rest) =
      .token ⟨.number (String.ofList chars) value, line⟩ line rest := by
  obtain ⟨c, tail, rfl, isDigit, whole⟩ := isNumeral
  have fits : marksFit {} none (c :: tail) = true := by
    unfold numberValue? at accepted
    split at accepted
    · assumption
    · cases accepted
  have run := numberRun_append whole stop (getLast?_ne_of_marksFit fits)
  refine ⟨c, tail, rfl, not_isBlank isDigit ⟨rfl, rfl, rfl⟩, ?_⟩
  rw [scanFrom_digit line isDigit, run, accepted]

theorem scanFrom_string {content : List Char} (noQuote : '"' ∉ content) :
    scanFrom line '"' (content ++ '"' :: rest) =
      .token ⟨.string (String.ofList content), line⟩ (line + lineCount content) rest := by
  have inside : ∀ c ∈ content, (c != '"') = true := by
    intro c member
    simp only [bne_iff_ne]
    rintro rfl
    exact noQuote member
  have stop : ∀ d ∈ ('"' :: rest).head?, (d != '"') = false := by simp
  obtain ⟨taken, dropped⟩ := takeWhile_of_stop inside stop
  have noWord : isWordStart '"' = false := rfl
  unfold scanFrom
  simp only [noWord, taken, dropped, Bool.false_eq_true, if_false, beq_self_eq_true, if_true]

/-- Whether a character starts neither a word, a string nor a number, and ends no line. -/
def isMark (c : Char) : Bool :=
  !(isWordStart c || c == '"' || Decimal.isDigit c || c == '#' || c == '\n')

theorem scanFrom_mark {tail : List Char} (mark : isMark c = true) :
    scanFrom line c tail =
      if c == ':' && tail.head? == some ':' then .token ⟨.scope, line⟩ line tail.tail
      else if startsOperator c then
        match tail with
        | d :: after =>
          if isOperatorSuffix d then .token ⟨.operator (String.ofList [c, d]), line⟩ line after
          else .token ⟨.operator (String.ofList [c]), line⟩ line tail
        | [] => .token ⟨.operator (String.ofList [c]), line⟩ line []
      else .token ⟨.char c, line⟩ line tail := by
  simp only [isMark, Bool.not_eq_true', Bool.or_eq_false_iff] at mark
  obtain ⟨⟨⟨⟨noWord, noQuote⟩, noDigit⟩, noComment⟩, noLine⟩ := mark
  unfold scanFrom
  cases tail <;>
    simp only [noWord, noQuote, noDigit, noComment, noLine, Bool.false_eq_true, if_false]

private theorem isWordChar_of_isMark (mark : isMark c = true) : isWordChar c = false := by
  simp only [isMark, Bool.not_eq_true', Bool.or_eq_false_iff] at mark
  simp [isWordChar, mark]

theorem scanFrom_symbol (mark : isMark c = true) (starts : startsOperator c = true)
    (stop : ∀ d ∈ rest.head?, isOperatorSuffix d = false) :
    scanFrom line c rest = .token ⟨.operator (String.ofList [c]), line⟩ line rest := by
  have noColon : (c == ':') = false := by
    apply beq_false_of_ne
    rintro rfl
    cases starts
  rw [scanFrom_mark mark]
  simp only [noColon, starts, Bool.false_and, Bool.false_eq_true, if_false, if_true]
  cases rest with
  | nil => rfl
  | cons d rest => simp only [stop d rfl, Bool.false_eq_true, if_false]

theorem scanFrom_pair {d : Char} (mark : isMark c = true) (starts : startsOperator c = true)
    (follows : isOperatorSuffix d = true) :
    scanFrom line c (d :: rest) = .token ⟨.operator (String.ofList [c, d]), line⟩ line rest := by
  have noColon : (c == ':') = false := by
    apply beq_false_of_ne
    rintro rfl
    cases starts
  rw [scanFrom_mark mark]
  simp only [noColon, starts, follows, Bool.false_and, Bool.false_eq_true, if_false, if_true]

theorem scanFrom_delimiter (member : c ∈ delimiters)
    (stop : ∀ d ∈ rest.head?, (c != ':' || d != ':') = true) :
    scanFrom line c rest = .token ⟨.char c, line⟩ line rest := by
  have noScope : (c == ':' && rest.head? == some ':') = false := by
    rw [Bool.eq_false_iff]
    intro both
    cases rest with
    | nil => simp at both
    | cons d rest =>
      have apart := stop d rfl
      simp_all
  have noOperator : startsOperator c = false ∧ isMark c = true := by
    simp only [delimiters, List.mem_cons, List.not_mem_nil, or_false] at member
    rcases member with rfl | rfl | rfl | rfl | rfl | rfl | rfl <;> decide
  rw [scanFrom_mark noOperator.2]
  simp only [noScope, noOperator.1, Bool.false_eq_true, if_false]

/-- An operator is a word, or it has one or two characters. -/
theorem spelling_cases (operator : Operator) :
    (WordChars operator.spelling.toList ∧ operator.spelling.toList.all isWordChar = true) ∨
    (∃ c, operator.spelling.toList = [c] ∧ isMark c = true ∧ startsOperator c = true) ∨
    ∃ c d, operator.spelling.toList = [c, d] ∧ isMark c = true ∧ startsOperator c = true ∧
      isOperatorSuffix d = true := by
  cases operator with
  | not | modulo | and | or => exact .inl ⟨⟨_, _, rfl, rfl, rfl⟩, rfl⟩
  | complement | times | divide | plus | minus | bitAnd | bitXor | bitOr | less | greater |
      assign =>
    exact .inr (.inl ⟨_, rfl, rfl, rfl⟩)
  | power | shiftLeft | shiftRight | lessEqual | greaterEqual | equal | notEqual =>
    exact .inr (.inr ⟨_, _, rfl, rfl, rfl, rfl⟩)

private theorem ofWord_spelling (operator : Operator) :
    ofWord operator.spelling = .operator operator.spelling := by
  cases operator <;> rfl

theorem scanFrom_operator (operator : Operator)
    (stop : ∀ d ∈ rest.head?, endsBefore (.operator operator.spelling) d = true) :
    ∃ c tail, operator.spelling.toList = c :: tail ∧ isBlank c = false ∧
      scanFrom line c (tail ++ rest) = .token ⟨.operator operator.spelling, line⟩ line rest := by
  have whole : String.ofList operator.spelling.toList = operator.spelling := String.ofList_toList
  rcases spelling_cases operator with ⟨isWord, all⟩ | ⟨c, spelled, mark, starts⟩ |
    ⟨c, d, spelled, mark, starts, follows⟩
  · have ends : ∀ d ∈ rest.head?, isWordChar d = false := by
      intro d isNext
      have apart := stop d isNext
      simpa [endsBefore, all] using apart
    obtain ⟨c, tail, spelled, noBlank, taken⟩ := scanFrom_word line isWord ends
    refine ⟨c, tail, spelled, noBlank, ?_⟩
    rw [taken, whole, ofWord_spelling]
  · have length : operator.spelling.length = 1 := by
      rw [← String.length_toList, spelled]
      rfl
    have ends : ∀ d ∈ rest.head?, isOperatorSuffix d = false := by
      intro d isNext
      have apart := stop d isNext
      simpa [endsBefore, spelled, length, isWordChar_of_isMark mark] using apart
    refine ⟨c, [], spelled, not_isBlank starts ⟨rfl, rfl, rfl⟩, ?_⟩
    rw [List.nil_append, scanFrom_symbol mark starts ends, ← spelled, whole]
  · refine ⟨c, [d], spelled, not_isBlank starts ⟨rfl, rfl, rfl⟩, ?_⟩
    rw [List.singleton_append, scanFrom_pair mark starts follows, ← spelled, whole]

/-- What a spelling is scanned to, if no part of it follows. -/
theorem scanFrom_spelled (line : Nat) {lexeme : Lexeme} (spells : Spells lexeme chars)
    (stop : ∀ d ∈ rest.head?, endsBefore lexeme d = true) :
    ∃ c tail next, chars = c :: tail ∧ isBlank c = false ∧
      scanFrom line c (tail ++ rest) = .token ⟨lexeme, line⟩ next rest := by
  cases lexeme with
  | endOfFile | keyword _ | newLine => cases spells
  | identifier name =>
    obtain ⟨rfl, isWord, isName⟩ := spells
    have ends : ∀ d ∈ rest.head?, isWordChar d = false := by
      intro d isNext
      simpa [endsBefore] using stop d isNext
    obtain ⟨c, tail, spelled, noBlank, taken⟩ := scanFrom_word line isWord ends
    rw [String.ofList_toList, isName] at taken
    exact ⟨c, tail, line, spelled, noBlank, taken⟩
  | boolean value =>
    obtain rfl : chars = (booleanSpelling value).toList := spells
    have isWord : WordChars (booleanSpelling value).toList ∧
        ofWord (booleanSpelling value) = .boolean value := by
      cases value
      · exact ⟨⟨_, _, rfl, rfl, rfl⟩, rfl⟩
      · exact ⟨⟨_, _, rfl, rfl, rfl⟩, rfl⟩
    have ends : ∀ d ∈ rest.head?, isWordChar d = false := by
      intro d isNext
      simpa [endsBefore] using stop d isNext
    obtain ⟨c, tail, spelled, noBlank, taken⟩ := scanFrom_word line isWord.1 ends
    rw [String.ofList_toList, isWord.2] at taken
    exact ⟨c, tail, line, spelled, noBlank, taken⟩
  | number spelling value =>
    obtain ⟨rfl, isNumeral, accepted⟩ := spells
    have ends : ∀ d ∈ rest.head?, (Decimal.isDigit d || d == '.' || d == 'e') = false := by
      intro d isNext
      simpa [endsBefore] using stop d isNext
    obtain ⟨c, tail, spelled, noBlank, taken⟩ := scanFrom_number line isNumeral accepted ends
    rw [String.ofList_toList] at taken
    exact ⟨c, tail, line, spelled, noBlank, taken⟩
  | string content =>
    obtain ⟨rfl, noQuote⟩ := spells
    refine ⟨'"', content.toList ++ ['"'], line + lineCount content.toList, rfl, rfl, ?_⟩
    rw [List.append_assoc, List.singleton_append, scanFrom_string noQuote, String.ofList_toList]
  | operator spelling =>
    obtain ⟨rfl, operator, rfl⟩ := spells
    obtain ⟨c, tail, spelled, noBlank, taken⟩ := scanFrom_operator operator stop
    exact ⟨c, tail, line, spelled, noBlank, taken⟩
  | scope =>
    obtain rfl : chars = [':', ':'] := spells
    exact ⟨':', [':'], line, rfl, rfl, scanFrom_mark rfl⟩
  | char c =>
    obtain ⟨rfl, member⟩ := spells
    refine ⟨c, [], line, rfl, ?_, scanFrom_delimiter member stop⟩
    exact not_isBlank (p := fun d => decide (d ∈ delimiters)) (decide_eq_true member)
      ⟨rfl, rfl, rfl⟩

/-! ## Scanning a line -/

theorem scanLines_eq (line : Nat) (text : List Char) :
    scanLines line text = match scanStep line text with
      | .token token next rest =>
        ⟨token :: (scanLines next rest).tokens, (scanLines next rest).failure⟩
      | .finish token => ⟨[token], none⟩
      | .failure error reached => ⟨[], some (error, reached)⟩ := by
  rw [scanLines]
  split <;> simp_all

/-- A line of lexemes is scanned to its lexemes and the end of the text. -/
theorem scanLines_spaced {text : List Char} (spaced : Spaced lexemes text) (line : Nat) :
    ∃ tokens last, scanLines line text = ⟨tokens ++ [last], none⟩ ∧
      tokens.map Token.lexeme = lexemes ∧ last.lexeme = .endOfFile := by
  induction spaced generalizing line with
  | @nil blanks all =>
    refine ⟨[], ⟨.endOfFile, line⟩, ?_, rfl, rfl⟩
    rw [scanLines_eq, scanStep, ← List.append_nil blanks, List.dropWhile_append_of_pos all]
    rfl
  | @cons blanks chars text lexeme rest all spells stop _ ih =>
    obtain ⟨c, tail, next, rfl, noBlank, taken⟩ := scanFrom_spelled line spells stop
    obtain ⟨tokens, last, scanned, same, isEnd⟩ := ih next
    have first : scanStep line (blanks ++ (c :: tail ++ text)) =
        .token ⟨lexeme, line⟩ next text := by
      unfold scanStep
      rw [List.dropWhile_append_of_pos all, List.cons_append,
        List.dropWhile_cons_of_neg (by simp [noBlank])]
      exact taken
    refine ⟨⟨lexeme, line⟩ :: tokens, last, ?_, congrArg (lexeme :: ·) same, isEnd⟩
    rw [scanLines_eq, first]
    simp only [scanned, List.cons_append]

theorem Spaced.spelled {text : List Char} (spaced : Spaced lexemes text) :
    ∀ lexeme ∈ lexemes, ∃ chars, Spells lexeme chars := by
  induction spaced with
  | nil _ => nofun
  | cons _ spells _ _ ih =>
    exact List.forall_mem_cons.mpr ⟨⟨_, spells⟩, ih⟩

private theorem endsBefore_blank (lexeme : Lexeme) : endsBefore lexeme ' ' = true := by
  unfold endsBefore
  split
  · rfl
  · rfl
  · rfl
  · split
    · rfl
    · simp [isOperatorSuffix]
  · simp
  · rfl

/-- Lexemes that have a spelling can be written in a line. -/
theorem exists_spaced (spelled : ∀ lexeme ∈ lexemes, ∃ chars, Spells lexeme chars) :
    ∃ text, Spaced lexemes text := by
  suffices apart : ∃ text, Spaced lexemes text ∧ ∀ d ∈ text.head?, d = ' ' by
    obtain ⟨text, spaced, _⟩ := apart
    exact ⟨text, spaced⟩
  induction lexemes with
  | nil => exact ⟨[], .nil nofun, nofun⟩
  | cons lexeme rest ih =>
    obtain ⟨chars, spells⟩ := spelled lexeme List.mem_cons_self
    obtain ⟨text, spaced, blank⟩ :=
      ih fun other member => spelled other (List.mem_cons_of_mem _ member)
    refine ⟨[' '] ++ (chars ++ text), .cons (by simp [isBlank]) spells ?_ spaced, ?_⟩
    · intro d isNext
      rw [blank d isNext]
      exact endsBefore_blank lexeme
    · rintro d ⟨⟩
      rfl

end Kronk.Token
