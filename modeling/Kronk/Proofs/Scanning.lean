import Kronk.Proofs.Spelling

/-!
# Texts cut into tokens

One step of the scanner skips blanks and cuts the characters of one token off the text; `Cuts` says
which ones.  So the scanner is always on the line of its cursor, a token has the line of its first
character, and the spellings of the tokens of a text are scanned to the same tokens again.
-/

namespace Kronk

def Lexeme.spelling : Lexeme → String
  | .endOfFile => ""
  | .keyword word => word.spelling
  | .identifier name => name
  | .boolean value => booleanSpelling value
  | .number spelling _ => spelling
  | .string content => "\"" ++ content ++ "\""
  | .operator spelling => spelling
  | .newLine => "\n"
  | .scope => "::"
  | .char c => String.singleton c

namespace Token

/-! ## One step -/

/-- The scanner cuts `taken` off a text for a lexeme where `rest` follows. -/
inductive Cuts : Lexeme → (taken rest : List Char) → Prop
  | word {chars rest : List Char} (isWord : WordChars chars)
      (stop : ∀ d ∈ rest.head?, isWordChar d = false) :
      Cuts (ofWord (String.ofList chars)) chars rest
  | string {chars rest : List Char} (noQuote : '"' ∉ chars) :
      Cuts (.string (String.ofList chars)) ('"' :: (chars ++ ['"'])) rest
  | number {chars rest : List Char} {value : Binary64} (isNumeral : IsNumeral chars)
      (accepted : numberValue? chars = some value)
      (stop : ∀ d ∈ rest.head?, (Decimal.isDigit d || d == '.' || d == 'e') = false) :
      Cuts (.number (String.ofList chars) value) chars rest
  | comment {chars folded rest : List Char} (noLine : '\n' ∉ chars)
      (blank : ∀ d ∈ folded, (d == '\n' || isBlank d) = true)
      (stop : ∀ d ∈ rest.head?, (d == '\n' || isBlank d) = false) :
      Cuts .newLine ('#' :: (chars ++ '\n' :: folded)) rest
  | newLine {rest : List Char} : Cuts .newLine ['\n'] rest
  | scope {rest : List Char} : Cuts .scope [':', ':'] rest
  | pair {c d : Char} {rest : List Char} (mark : isMark c = true) (starts : startsOperator c = true)
      (follows : isOperatorSuffix d = true) : Cuts (.operator (String.ofList [c, d])) [c, d] rest
  | symbol {c : Char} {rest : List Char} (mark : isMark c = true) (starts : startsOperator c = true)
      (stop : ∀ d ∈ rest.head?, isOperatorSuffix d = false) :
      Cuts (.operator (String.ofList [c])) [c] rest
  | char {c : Char} {rest : List Char} (mark : isMark c = true)
      (noOperator : startsOperator c = false)
      (noBlank : isBlank c = false) (stop : (c == ':' && rest.head? == some ':') = false) :
      Cuts (.char c) [c] rest

variable {c : Char} {chars text rest : List Char} {lexeme : Lexeme}

theorem exists_stop (p : Char → Bool) (text : List Char) :
    ∃ run rest, text = run ++ rest ∧ (∀ c ∈ run, p c = true) ∧ ∀ d ∈ rest.head?, p d = false := by
  refine ⟨text.takeWhile p, text.dropWhile p, List.takeWhile_append_dropWhile.symm,
    List.all_eq_true.mp List.all_takeWhile, fun d isNext => ?_⟩
  have fails := List.head?_dropWhile_not p text
  rw [Option.mem_def.mp isNext] at fails
  exact fails

theorem lineCount_eq_zero {p : Char → Bool} (all : ∀ c ∈ chars, p c = true)
    (noLine : p '\n' = false) : lineCount chars = 0 := by
  refine List.count_eq_zero.mpr fun member => ?_
  rw [all _ member] at noLine
  cases noLine

/-- A number is cut off at the first character that is no part of it. -/
theorem numberRun_split (previous : Char) (text : List Char) :
    (numberRun previous text).1 ++ (numberRun previous text).2 = text ∧
      numberRun previous (numberRun previous text).1 = ((numberRun previous text).1, []) ∧
      (∀ d ∈ (numberRun previous text).1, d ≠ '\n') ∧ ∀ d ∈ (numberRun previous text).2.head?,
        (Decimal.isDigit d || d == '.' || d == 'e') = false := by
  fun_induction numberRun previous text with
  | case1 => simp [numberRun]
  | case2 previous d rest belongs run after eq ih =>
    rw [eq] at ih
    obtain ⟨joined, whole, inside, stop⟩ := ih
    refine ⟨by simpa using joined, ?_, List.forall_mem_cons.mpr ⟨?_, inside⟩, stop⟩
    · rw [numberRun, if_pos belongs, whole]
    · rintro rfl
      cases belongs
  | case3 previous d rest ends =>
    refine ⟨rfl, rfl, by simp, ?_⟩
    rintro _ ⟨⟩
    simp_all

/-- What a step on a text that starts on `line` gives: a token whose characters stand at the front,
with that line, and the line behind them; the end of a text without a new line; or a failure on the
line behind the characters that were taken. -/
def Step.Fits (line : Nat) (text : List Char) : Step → Prop
  | .token found next rest => ∃ taken, text = taken ++ rest ∧ Cuts found.lexeme taken rest ∧
    taken ≠ [] ∧ found.line = line ∧ next = line + lineCount taken
  | .finish found => found = ⟨.endOfFile, line⟩ ∧ '\n' ∉ text
  | .failure _ reached => ∃ taken rest, text = taken ++ rest ∧ taken ≠ [] ∧
    reached = line + lineCount taken

theorem fits_mark (line : Nat) (mark : isMark c = true) (noBlank : isBlank c = false)
    (tail : List Char) : (scanFrom line c tail).Fits line (c :: tail) := by
  have first : c ≠ '\n' := by
    rintro rfl
    cases mark
  have alone : line = line + lineCount [c] := by simp [lineCount, first]
  rw [scanFrom_mark mark]
  split
  · next isScope =>
    obtain ⟨rfl, isNext⟩ : c = ':' ∧ tail.head? = some ':' := by simpa using isScope
    obtain ⟨after, rfl⟩ := List.head?_eq_some_iff.mp isNext
    exact ⟨[':', ':'], rfl, .scope, nofun, rfl, rfl⟩
  split
  · next starts =>
    split
    · next d after _ =>
      split
      · next follows =>
        have second : d ≠ '\n' := by
          rintro rfl
          cases follows
        exact ⟨[c, d], rfl, .pair mark starts follows, nofun, rfl, by
          simp [lineCount, first, second]⟩
      · next stops => exact ⟨[c], rfl, .symbol mark starts (by simpa using stops), nofun, rfl,
          alone⟩
    · exact ⟨[c], rfl, .symbol mark starts nofun, nofun, rfl, alone⟩
  · next noScope noOperator =>
    exact ⟨[c], rfl, .char mark (by simpa using noOperator) noBlank (by simpa using noScope), nofun,
      rfl, alone⟩

theorem fits_string (line : Nat) (tail : List Char) :
    (scanFrom line '"' tail).Fits line ('"' :: tail) := by
  obtain ⟨content, after, rfl, inside, stop⟩ := exists_stop (· != '"') tail
  have noQuote : '"' ∉ content := fun member => by simpa using inside _ member
  cases after with
  | nil =>
    have broken : scanFrom line '"' (content ++ []) =
        .failure .openString (line + lineCount content) := by
      unfold scanFrom
      rw [(takeWhile_of_stop inside stop).1, (takeWhile_of_stop inside stop).2]
      rfl
    rw [broken]
    exact ⟨'"' :: content, [], by simp, nofun, by simp [lineCount]⟩
  | cons quote after =>
    obtain rfl : quote = '"' := by simpa using stop quote rfl
    rw [scanFrom_string noQuote]
    exact ⟨_, by simp, .string noQuote, nofun, rfl, by simp [lineCount]⟩

theorem fits_comment (line : Nat) (tail : List Char) :
    (scanFrom line '#' tail).Fits line ('#' :: tail) := by
  obtain ⟨comment, after, rfl, inside, stop⟩ := exists_stop (· != '\n') tail
  have noLine : '\n' ∉ comment := fun member => by simpa using inside _ member
  unfold scanFrom
  rw [(takeWhile_of_stop inside stop).2]
  cases after with
  | nil => exact ⟨rfl, by simpa using noLine⟩
  | cons first after =>
    obtain rfl : first = '\n' := by simpa using stop first rfl
    obtain ⟨folded, after, rfl, blank, ends⟩ := exists_stop (fun d => d == '\n' || isBlank d) after
    have all : ∀ d ∈ '\n' :: folded, (d == '\n' || isBlank d) = true :=
      List.forall_mem_cons.mpr ⟨rfl, blank⟩
    have cuts := takeWhile_of_stop all ends
    rw [List.cons_append] at cuts
    simp only [cuts]
    refine ⟨_, by simp, .comment noLine blank ends, nofun, rfl, ?_⟩
    simp [lineCount, List.count_eq_zero.mpr noLine]

/-- What a step gives on a text that starts with no blank. -/
theorem scanFrom_fits (line : Nat) (noBlank : isBlank c = false) (tail : List Char) :
    (scanFrom line c tail).Fits line (c :: tail) := by
  by_cases mark : isMark c = true
  · exact fits_mark line mark noBlank tail
  by_cases isQuote : c = '"'
  · exact isQuote ▸ fits_string line tail
  by_cases isComment : c = '#'
  · exact isComment ▸ fits_comment line tail
  unfold scanFrom
  split
  · next starts =>
    obtain ⟨more, after, rfl, inside, stop⟩ := exists_stop isWordChar tail
    rw [(takeWhile_of_stop inside stop).1, (takeWhile_of_stop inside stop).2]
    refine ⟨c :: more, rfl, .word ⟨c, more, rfl, starts, List.all_eq_true.mpr inside⟩ stop,
      List.cons_ne_nil _ _, rfl, ?_⟩
    rw [lineCount_eq_zero (p := isWordChar) (List.forall_mem_cons.mpr
      ⟨by simp [isWordChar, starts], inside⟩) rfl, Nat.add_zero]
  rw [if_neg (by simpa using isQuote)]
  split
  · next isDigit =>
    obtain ⟨joined, whole, inside, stop⟩ := numberRun_split c tail
    have first : c ≠ '\n' := by
      rintro rfl
      cases isDigit
    have stays : line = line + lineCount (c :: (numberRun c tail).1) := by
      rw [lineCount_eq_zero (p := (· != '\n')) (by simpa [first] using inside) rfl, Nat.add_zero]
    have split : c :: tail = c :: (numberRun c tail).1 ++ (numberRun c tail).2 := by simp [joined]
    dsimp only
    split
    · next value accepted =>
      exact ⟨_, split, .number ⟨_, _, rfl, isDigit, whole⟩ accepted stop,
        List.cons_ne_nil _ _, rfl, stays⟩
    · exact ⟨_, _, split, List.cons_ne_nil _ _, stays⟩
  rw [if_neg (by simpa using isComment)]
  split
  · next isLine =>
    obtain rfl := eq_of_beq isLine
    exact ⟨['\n'], rfl, .newLine, List.cons_ne_nil _ _, rfl, rfl⟩
  · simp_all [isMark]

theorem scanStep_of_noBlank (line : Nat) (noBlank : isBlank c = false) (tail : List Char) :
    scanStep line (c :: tail) = scanFrom line c tail := by
  simp [scanStep, noBlank]

theorem scanStep_fits (line : Nat) (text : List Char) :
    ∃ blanks body, text = blanks ++ body ∧ (∀ c ∈ blanks, isBlank c = true) ∧
      (scanStep line text).Fits line body := by
  obtain ⟨blanks, body, rfl, inside, stop⟩ := exists_stop isBlank text
  refine ⟨blanks, body, rfl, inside, ?_⟩
  unfold scanStep
  rw [(takeWhile_of_stop inside stop).2]
  cases body with
  | nil => exact ⟨rfl, nofun⟩
  | cons c tail => exact scanFrom_fits line (stop c rfl) tail

/-- A text is cut into tokens, up to its end or to a broken lexeme. -/
theorem scanLines_cuts (line : Nat) (text : List Char) :
    ∃ tokens, (∀ token ∈ tokens, ∃ taken rest, Cuts token.lexeme taken rest) ∧
      ((∃ last, last.lexeme = .endOfFile ∧ scanLines line text = ⟨tokens ++ [last], none⟩) ∨
        ∃ failure, scanLines line text = ⟨tokens, some failure⟩) := by
  fun_induction scanLines line text with
  | case1 line text token next rest taken later ih =>
    obtain ⟨tokens, cuts, ends⟩ := ih
    obtain ⟨_, _, _, _, fits⟩ := scanStep_fits line text
    rw [taken] at fits
    obtain ⟨chars, _, cut, _⟩ := fits
    refine ⟨token :: tokens, List.forall_mem_cons.mpr ⟨⟨chars, rest, cut⟩, cuts⟩, ?_⟩
    rcases ends with ⟨last, isEnd, scanned⟩ | ⟨failure, scanned⟩
    · exact .inl ⟨last, isEnd, by simp [later, scanned]⟩
    · exact .inr ⟨failure, by simp [later, scanned]⟩
  | case2 line text token finished =>
    obtain ⟨_, _, _, _, fits⟩ := scanStep_fits line text
    rw [finished] at fits
    exact ⟨[], nofun, .inl ⟨token, by rw [fits.1], rfl⟩⟩
  | case3 line text error reached failed => exact ⟨[], nofun, .inr ⟨_, rfl⟩⟩

/-! ## Lines -/

/-- The scanner after some calls on a text: the line it is on, and the text behind its cursor. -/
inductive Scanned (text : List Char) : (calls line : Nat) → (rest : List Char) → Prop
  | start : Scanned text 0 1 text
  | call {calls line next : Nat} {rest after : List Char} {token : Token} :
      Scanned text calls line rest → scanStep line rest = .token token next after →
      Scanned text (calls + 1) next after

theorem Scanned.place {calls line : Nat} (scanned : Scanned text calls line rest) :
    ∃ passed, text = passed ++ rest ∧ line = 1 + lineCount passed ∧ calls ≤ passed.length := by
  induction scanned with
  | start => exact ⟨[], rfl, rfl, Nat.le_refl _⟩
  | @call calls line next rest after token _ taken ih =>
    obtain ⟨passed, rfl, isLine, fewer⟩ := ih
    obtain ⟨blanks, body, rfl, blank, fits⟩ := scanStep_fits line rest
    rw [taken] at fits
    obtain ⟨chars, rfl, _, nonempty, _, rfl⟩ := fits
    refine ⟨passed ++ (blanks ++ chars), by simp, ?_, ?_⟩
    · have none : lineCount blanks = 0 := lineCount_eq_zero blank rfl
      simp only [lineCount, List.count_append] at none isLine ⊢
      omega
    · have some := List.length_pos_iff.mpr nonempty
      simp only [List.length_append]
      omega

/-- Calls come to the end of the text or to a failure, one for each token that is scanned. -/
theorem Scanned.last {calls line : Nat} (scanned : Scanned text calls line rest) :
    ∃ more final left, Scanned text (calls + more) final left ∧
      (∀ token next after, scanStep final left ≠ .token token next after) ∧
      (scanLines line rest).tokens.length + (scanLines line rest).failure.toList.length =
        more + 1 := by
  fun_induction scanLines line rest generalizing calls with
  | case1 line rest token next after taken later =>
    rename_i ih
    obtain ⟨more, final, left, reached, ended, count⟩ := ih (scanned.call taken)
    refine ⟨more + 1, final, left, ?_, ended, ?_⟩
    · rwa [Nat.add_assoc, Nat.add_comm 1] at reached
    · simp only [List.length_cons, later]
      omega
  | case2 line rest token finished => exact ⟨0, line, rest, scanned, by simp [finished], rfl⟩
  | case3 line rest error reached failed => exact ⟨0, line, rest, scanned, by simp [failed], rfl⟩

/-- The spelling of a lexeme is scanned back to it, at the end of a text or before a space. -/
def Respells (lexeme : Lexeme) : Prop :=
  ∀ line rest, (∀ d ∈ rest.head?, d = ' ') →
    ∃ next, scanStep line (lexeme.spelling.toList ++ rest) = .token ⟨lexeme, line⟩ next rest

theorem spelling_ofWord (word : String) : (ofWord word).spelling = word := by
  unfold ofWord
  split
  · next found => exact eq_of_beq (List.find?_some found :)
  split
  · next isTrue => exact isTrue.symm
  split
  · next isFalse => exact isFalse.symm
  split <;> rfl

private theorem scanStep_spelling {line next : Nat} {tail : List Char} (noBlank : isBlank c = false)
    (spelled : lexeme.spelling.toList = c :: tail)
    (taken : scanFrom line c (tail ++ rest) = .token ⟨lexeme, line⟩ next rest) :
    ∃ next, scanStep line (lexeme.spelling.toList ++ rest) = .token ⟨lexeme, line⟩ next rest := by
  refine ⟨next, ?_⟩
  rw [spelled, List.cons_append, scanStep_of_noBlank line noBlank, taken]

/-- Whatever the scanner makes a lexeme of, the spelling of the lexeme is scanned back. -/
theorem Cuts.respells (cuts : Cuts lexeme chars rest) : Respells lexeme := by
  intro line after blank
  have stop : ∀ p : Char → Bool, p ' ' = false → ∀ d ∈ after.head?, p d = false :=
    fun p fails d isNext => by rwa [blank d isNext]
  cases cuts with
  | word isWord _ =>
    obtain ⟨c, tail, rfl, noBlank, taken⟩ := scanFrom_word line isWord (stop _ rfl)
    exact scanStep_spelling noBlank (by rw [spelling_ofWord, String.toList_ofList]) taken
  | @string content _ noQuote =>
    have spelled : (Lexeme.string (String.ofList content)).spelling.toList =
        '"' :: (content ++ ['"']) := by
      simp [Lexeme.spelling]
    exact scanStep_spelling rfl spelled (by simpa using scanFrom_string noQuote)
  | number isNumeral accepted _ =>
    obtain ⟨c, tail, rfl, noBlank, taken⟩ := scanFrom_number line isNumeral accepted (stop _ rfl)
    exact scanStep_spelling noBlank String.toList_ofList taken
  | comment _ _ _ => exact ⟨_, rfl⟩
  | newLine => exact ⟨_, rfl⟩
  | scope => exact ⟨_, rfl⟩
  | pair mark starts follows =>
    exact scanStep_spelling (not_isBlank starts ⟨rfl, rfl, rfl⟩) String.toList_ofList
      (scanFrom_pair mark starts follows)
  | symbol mark starts _ =>
    exact scanStep_spelling (not_isBlank starts ⟨rfl, rfl, rfl⟩) String.toList_ofList
      (scanFrom_symbol mark starts (stop _ rfl))
  | @char c _ mark noOperator noBlank _ =>
    have noScope : (c == ':' && after.head? == some ':') = false := by
      simp only [Bool.and_eq_false_imp, beq_eq_false_iff_ne]
      intro _ isNext
      cases blank ':' isNext
    have taken : scanFrom line c ([] ++ after) = .token ⟨.char c, line⟩ line after := by
      rw [List.nil_append, scanFrom_mark mark, noScope, noOperator]
      rfl
    exact scanStep_spelling noBlank (String.toList_singleton c) taken

/-- Spellings with single spaces between them are scanned to their lexemes. -/
theorem scanLines_spellings {lexemes : List Lexeme} (all : ∀ lexeme ∈ lexemes, Respells lexeme)
    (line : Nat) : ∃ tokens last,
      scanLines line ([' '].intercalate (lexemes.map fun lexeme => lexeme.spelling.toList)) =
        ⟨tokens ++ [last], none⟩ ∧ tokens.map Token.lexeme = lexemes ∧
          last.lexeme = .endOfFile := by
  induction lexemes generalizing line with
  | nil => exact ⟨[], ⟨.endOfFile, line⟩, scanLines_eq line [], rfl, rfl⟩
  | cons lexeme rest ih =>
    obtain ⟨respells, later⟩ := List.forall_mem_cons.mp all
    -- what stands behind the first spelling: nothing, or a space and the other spellings
    obtain ⟨behind, split, blank, same⟩ : ∃ behind,
        [' '].intercalate ((lexeme :: rest).map fun lexeme => lexeme.spelling.toList) =
          lexeme.spelling.toList ++ behind ∧ (∀ d ∈ behind.head?, d = ' ') ∧
        ∀ line, scanLines line behind =
          scanLines line ([' '].intercalate (rest.map fun lexeme => lexeme.spelling.toList)) := by
      cases rest with
      | nil => exact ⟨[], by simp, nofun, fun _ => rfl⟩
      | cons other rest =>
        refine ⟨' ' :: [' '].intercalate ((other :: rest).map fun lexeme =>
          lexeme.spelling.toList), by simp [List.intercalate_cons_cons], by simp, fun _ => ?_⟩
        rw [scanLines_eq, scanLines_eq]
        rfl
    obtain ⟨next, taken⟩ := respells line behind blank
    obtain ⟨tokens, last, scanned, lexemes, isEnd⟩ := ih later next
    refine ⟨⟨lexeme, line⟩ :: tokens, last, ?_, congrArg (lexeme :: ·) lexemes, isEnd⟩
    rw [split, scanLines_eq, taken]
    simp only [same, scanned, List.cons_append]

/-- The spellings of the tokens of a text, with single spaces between them, are scanned to the same
tokens again, up to their lines. -/
theorem scan_spellings {text : String} (accepted : (scan text).failure = none) :
    (scan (" ".intercalate ((scan text).tokens.dropLast.map (·.lexeme.spelling)))).failure = none ∧
      (scan (" ".intercalate ((scan text).tokens.dropLast.map (·.lexeme.spelling)))).tokens.map
        Token.lexeme = (scan text).tokens.map Token.lexeme := by
  obtain ⟨tokens, cuts, ⟨last, isEnd, scanned⟩ | ⟨failure, scanned⟩⟩ := scanLines_cuts 1 text.toList
  · have all : ∀ lexeme ∈ tokens.map Token.lexeme, Respells lexeme := by
      refine List.forall_mem_map.mpr fun token member => ?_
      obtain ⟨_, _, cut⟩ := cuts token member
      exact cut.respells
    obtain ⟨others, final, again, same, isFinal⟩ := scanLines_spellings all 1
    have written : scan (" ".intercalate ((scan text).tokens.dropLast.map (·.lexeme.spelling))) =
        ⟨others ++ [final], none⟩ := by
      rw [← again]
      unfold scan
      rw [String.toList_intercalate, scanned, List.dropLast_concat, List.map_map, List.map_map]
      rfl
    rw [written]
    refine ⟨rfl, ?_⟩
    unfold scan
    simp [scanned, same, isFinal, isEnd]
  · unfold scan at accepted
    rw [scanned] at accepted
    cases accepted

/-- Marks that stand together, a string over two lines, and a comment with the blank lines folded
behind it. -/
theorem scan_spellings_folded :
    (scan "a:::\"b\nc\"0.0e-1x!*~ # d\n \n f").failure = none ∧
      (scan "a :: : \"b\nc\" 0.0e-1 x !* ~ \n f").tokens.map Token.lexeme =
        (scan "a:::\"b\nc\"0.0e-1x!*~ # d\n \n f").tokens.map Token.lexeme := by
  have accepted : (scan "a:::\"b\nc\"0.0e-1x!*~ # d\n \n f").failure = none := by decide +kernel
  have written : " ".intercalate ((scan "a:::\"b\nc\"0.0e-1x!*~ # d\n \n f").tokens.dropLast.map
      (·.lexeme.spelling)) = "a :: : \"b\nc\" 0.0e-1 x !* ~ \n f" := by decide +kernel
  exact ⟨accepted, written ▸ (scan_spellings accepted).2⟩

end Token

end Kronk
