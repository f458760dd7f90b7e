import Kronk.Proofs.Scanning
import Kronk.Source.Reader

/-!
# The tokens before a reader

Scanning makes identifiers of words only, and it ends with the end of the text or with a broken
lexeme.  Moving on drops tokens and makes none.
-/

namespace Kronk

/-! ## Words -/

/-- A text made of letters, digits and underscores. -/
structure IsWord (text : String) : Prop where
  nonempty : text ≠ ""
  wordChar : ∀ c ∈ text.toList, Token.isWordChar c

/-- An identifier among the tokens is a word. -/
def Token.IsWorded (token : Token) : Prop := ∀ name, token.lexeme = .identifier name → IsWord name

/-- A token that is neither the end of the text nor a new line. -/
def Token.IsSolid (token : Token) : Prop := token.isEnd = false ∧ token.lexeme ≠ .newLine

namespace Token

variable {name : String}

/-- Every identifier of a text is a word that means nothing else. -/
theorem scanLines_identifier (line : Nat) (text : List Char) :
    ∀ token ∈ (scanLines line text).tokens, token.lexeme = .identifier name →
      WordChars name.toList ∧ ofWord name = .identifier name := by
  intro token member identified
  obtain ⟨tokens, cuts, scanned⟩ := scanLines_cuts line text
  have isCut : token ∈ tokens := by
    rcases scanned with ⟨last, isEnd, scanned⟩ | ⟨failure, scanned⟩ <;> rw [scanned] at member
    · rcases List.mem_append.mp member with here | isLast
      · exact here
      · rw [List.mem_singleton.mp isLast, isEnd] at identified
        cases identified
    · exact member
  obtain ⟨taken, rest, cut⟩ := cuts token isCut
  generalize token.lexeme = lexeme at cut identified
  cases cut with
  | word isWord _ =>
    have same := spelling_ofWord (String.ofList taken)
    rw [identified] at same
    obtain rfl : name = String.ofList taken := same
    exact ⟨by rwa [String.toList_ofList], identified⟩
  | _ => cases identified

theorem WordChars.isWord {text : String} (wordChars : WordChars text.toList) : IsWord text := by
  obtain ⟨c, tail, isText, start, later⟩ := wordChars
  constructor
  · rintro rfl
    cases isText
  · intro d member
    rw [isText] at member
    rcases List.mem_cons.mp member with rfl | isLater
    · simp [isWordChar, start]
    · exact List.all_eq_true.mp later d isLater

/-- Every identifier of a text is a word. -/
theorem scanLines_worded (line : Nat) (text : List Char) :
    ∀ token ∈ (scanLines line text).tokens, token.IsWorded := by
  intro token member name identified
  exact (scanLines_identifier line text token member identified).1.isWord

end Token

/-! ## Moving on -/

namespace Source

/-- Every identifier that a reader still has before it is a word. -/
def Reading.Worded (reading : Reading) : Prop :=
  ∀ token ∈ reading.current :: reading.rest, token.IsWorded

/-- Behind the last token of the reading there is a broken lexeme, or the last token is the end of
the text. -/
def Reading.Closed (reading : Reading) : Prop :=
  reading.failure.isSome = true ∨
    ∃ token, (reading.current :: reading.rest).getLast? = some token ∧ token.isEnd = true

/-- A closed reading with at most `count` tokens behind the one it stands at. -/
structure Reading.Within (count : Nat) (reading : Reading) : Prop where
  closed : reading.Closed
  length_le : reading.rest.length ≤ count

theorem Reading.Within.mono {count greater : Nat} {reading : Reading}
    (within : reading.Within count) (fewer : count ≤ greater) : reading.Within greater :=
  ⟨within.closed, Nat.le_trans within.length_le fewer⟩

theorem nextToken_suffix {skipping : Bool} {tokens rest : List Token} {token : Token}
    (moved : nextToken skipping tokens = .to token rest) :
    ∃ passed, tokens = passed ++ token :: rest := by
  fun_induction nextToken skipping tokens with
  | case1 => cases moved
  | case2 => cases moved
  | case3 skipping first _ second later _ ih =>
    obtain ⟨passed, rfl⟩ := ih moved
    exact ⟨first :: second :: passed, rfl⟩
  | case4 => cases moved
  | case5 skipping first rest _ _ ih =>
    obtain ⟨passed, rfl⟩ := ih moved
    exact ⟨first :: passed, rfl⟩
  | case6 =>
    cases moved
    exact ⟨[], rfl⟩

/-- Tokens among which there is nowhere to move do not end with the end of the text. -/
theorem nextToken_exhausted {skipping : Bool} {tokens : List Token} {last : Token}
    (exhausted : nextToken skipping tokens = .exhausted) (isLast : tokens.getLast? = some last) :
    last.isEnd = false := by
  fun_induction nextToken skipping tokens with
  | case1 => cases isLast
  | case2 skipping token backslash =>
    cases isLast
    have isBackslash : token.lexeme = .char '\\' := by simpa [Token.isChar] using backslash
    simp [Token.isEnd, isBackslash]
  | case3 skipping first _ second later newLine ih =>
    cases later with
    | nil =>
      cases isLast
      simp [Token.isEnd, newLine]
    | cons third rest => exact ih exhausted (by simpa using isLast)
  | case4 => cases exhausted
  | case5 skipping first rest _ newLine ih =>
    cases rest with
    | nil =>
      cases isLast
      have isNewLine : first.lexeme = .newLine := by simp_all
      simp [Token.isEnd, isNewLine]
    | cons second later => exact ih exhausted (by simpa using isLast)
  | case6 => cases exhausted

theorem Reader.move_eq (skipping : Bool) (surroundings : Surroundings) (reading : Reading) :
    Reader.move skipping surroundings reading =
      match nextToken skipping reading.rest with
      | .to token rest => .ok () { reading with current := token, rest := rest }
      | .exhausted =>
        match reading.failure with
        | some (error, line) =>
          .error (Failure.atLine .tokenRead surroundings.file line error.message) reading
        | none => .ok () reading
      | .brokenContinuation token =>
        .error (Failure.atLine .parse surroundings.file token.line
          ReadError.continuation.message) reading := by
  change (match nextToken skipping reading.rest with
    | .to token rest => set { reading with current := token, rest := rest }
    | .exhausted =>
      match reading.failure with
      | some (error, line) => Reader.failAt .tokenRead line error.message
      | none => pure ()
    | .brokenContinuation token =>
      Reader.failAt .parse token.line ReadError.continuation.message : Reader Unit)
    surroundings reading = _
  rcases nextToken skipping reading.rest with ⟨token, rest⟩ | _ | token
  · rfl
  · cases reading.failure <;> rfl
  · rfl

end Source

end Kronk
