import Kronk.Proofs.Mangling
import Kronk.Proofs.Reading

/-!
# Which mangled names are split back

Splitting a mangled name gives its module and its symbol back unless the id of the module gets in
the way: the id of a type must not show a scope before the one that was written behind it, and the
id of a function must not start with a digit, which would belong to the length in front of it.
Types are told apart by their mangled names all the same, because no identifier has a colon.
-/

namespace Kronk.Token

/-- A name that the scanner finds in some text. -/
def IsIdentifier (name : String) : Prop :=
  ∃ text line, (⟨.identifier name, line⟩ : Token) ∈ (scan text).tokens

theorem isIdentifier_iff {name : String} :
    IsIdentifier name ↔ WordChars name.toList ∧ ofWord name = .identifier name := by
  constructor
  · rintro ⟨text, line, member⟩
    exact scanLines_identifier 1 text.toList _ member rfl
  · rintro ⟨wordChars, isName⟩
    have spells : ∀ lexeme ∈ [Lexeme.identifier name], ∃ chars, Spells lexeme chars := by
      intro lexeme member
      rw [List.mem_singleton.mp member]
      exact ⟨name.toList, rfl, wordChars, isName⟩
    obtain ⟨text, spaced⟩ := exists_spaced spells
    obtain ⟨tokens, last, scanned, lexemes, _⟩ := scanLines_spaced spaced 1
    obtain ⟨token, isToken, isLexeme⟩ := List.map_eq_singleton_iff.mp lexemes
    obtain ⟨lexeme, line⟩ := token
    subst isLexeme
    refine ⟨String.ofList text, line, ?_⟩
    rw [scan, String.toList_ofList, scanned, isToken]
    exact List.mem_cons_self

theorem WordChars.takeWhile_isDigit {chars : List Char} (wordChars : WordChars chars) :
    chars.takeWhile Decimal.isDigit = [] := by
  obtain ⟨c, tail, rfl, start, _⟩ := wordChars
  have noDigit : ¬Decimal.isDigit c = true := by
    intro digit
    rw [isWordStart_of_isDigit digit] at start
    cases start
  exact List.takeWhile_cons_of_neg noDigit

theorem WordChars.colon_not_mem {chars : List Char} (wordChars : WordChars chars) :
    ':' ∉ chars := by
  obtain ⟨c, tail, rfl, start, later⟩ := wordChars
  intro member
  rcases List.mem_cons.mp member with rfl | isLater
  · revert start
    decide
  · have isWordChar := List.all_eq_true.mp later ':' isLater
    revert isWordChar
    decide

end Kronk.Token

namespace Kronk.Name

open Decimal (isDigit natOfDigits)

/-- A scope mark can be read in the id, or in its end and the mark behind it. -/
def ShowsScope (module : String) : Prop := [':', ':'] <:+: module.toList ++ [':']

/-- The id is empty or starts with a digit, so that the length in front of it does not end where it
starts. -/
def RunsIntoLength (module : String) : Prop := ∀ c ∈ module.toList.head?, isDigit c = true

instance (module : String) : Decidable (ShowsScope module) :=
  inferInstanceAs (Decidable ([':', ':'] <:+: _))

instance (module : String) : Decidable (RunsIntoLength module) :=
  decidable_of_iff (module.toList.head?.all isDigit = true) (Option.all_eq_true _ _)

/-! ## Types -/

theorem demangle_ofType (module symbol : String) :
    demangle (ofType module symbol) = .ok ⟨.type, module, symbol⟩ ↔ ¬ShowsScope module := by
  have marked : afterMark? typeMark (ofType module symbol).toList =
      some (module.toList ++ ':' :: ':' :: symbol.toList) := by
    simp only [ofType, String.toList_append, List.append_assoc]
    rfl
  rw [ShowsScope, ← splitScope?_append, demangle, marked]
  constructor
  · intro demangled
    cases split : splitScope? (module.toList ++ ':' :: ':' :: symbol.toList) with
    | none => simp [split] at demangled
    | some parts =>
      obtain ⟨isModule, isSymbol⟩ : String.ofList parts.1 = module ∧
          String.ofList parts.2 = symbol := by simpa [split] using demangled
      rw [← isModule, ← isSymbol, String.toList_ofList, String.toList_ofList]
  · intro split
    simp [split]

theorem append_scope_inj {first second rest other : List Char} (noColon : ':' ∉ rest)
    (otherNoColon : ':' ∉ other)
    (same : first ++ ':' :: ':' :: rest = second ++ ':' :: ':' :: other) :
    first = second ∧ rest = other := by
  -- Seen from the end, both texts are what stands before the first colon.
  have letters {text : List Char} (absent : ':' ∉ text) :
      ∀ c ∈ text.reverse, (fun c => c != ':') c = true := by
    intro c member
    have present := List.mem_reverse.mp member
    simp only [bne_iff_ne]
    rintro rfl
    exact absent present
  have reversed := congrArg List.reverse same
  simp only [List.reverse_append, List.reverse_cons, List.append_assoc] at reversed
  have stop : ∀ (text : List Char), ∀ d ∈ ([':'] ++ text).head?, (fun c => c != ':') d = false := by
    intro text d member
    simp only [List.singleton_append, List.head?_cons, Option.mem_some_iff] at member
    simp [← member]
  have ends := Token.takeWhile_of_stop (letters noColon) (stop ([':'] ++ first.reverse))
  have otherEnds := Token.takeWhile_of_stop (letters otherNoColon) (stop ([':'] ++ second.reverse))
  rw [reversed] at ends
  have sameRest : rest = other := List.reverse_injective (ends.1.symm.trans otherEnds.1)
  subst sameRest
  exact ⟨List.append_cancel_right same, rfl⟩

variable {module symbol : String}

/-- Types of two modules never share a mangled name. -/
theorem ofType_inj {otherModule otherSymbol : String} (isIdentifier : Token.IsIdentifier symbol)
    (otherIsIdentifier : Token.IsIdentifier otherSymbol)
    (same : ofType module symbol = ofType otherModule otherSymbol) :
    module = otherModule ∧ symbol = otherSymbol := by
  have sameLetters := congrArg String.toList same
  simp only [ofType, String.toList_append, List.append_assoc] at sameLetters
  have sameNames := append_scope_inj
    (Token.isIdentifier_iff.mp isIdentifier).1.colon_not_mem
    (Token.isIdentifier_iff.mp otherIsIdentifier).1.colon_not_mem
    (List.append_cancel_left sameLetters)
  exact ⟨String.toList_injective sameNames.1, String.toList_injective sameNames.2⟩

/-! ## Functions -/

private theorem takeBytes?_append (text rest : List Char) :
    takeBytes? (byteCount text) (text ++ rest) = some (text, rest) := by
  induction text with
  | nil => simp [byteCount, takeBytes?]
  | cons letter later ih =>
    obtain ⟨count, isCount⟩ : ∃ count, byteCount (letter :: later) = count + 1 :=
      Nat.exists_eq_succ_of_ne_zero (byteCount_pos (List.cons_ne_nil letter later)).ne'
    have sizes : byteCount (letter :: later) = letter.utf8Size + byteCount later := rfl
    rw [isCount, List.cons_append, takeBytes?, if_pos (by omega),
      show count + 1 - letter.utf8Size = byteCount later by omega, ih]
    rfl

private theorem length_le_byteCount (text : List Char) : text.length ≤ byteCount text := by
  induction text with
  | nil => exact Nat.le_refl 0
  | cons letter rest ih =>
    have positive := letter.utf8Size_pos
    simp only [byteCount, List.length_cons]
    omega

theorem readSized_succeeds {text rest : List Char} (letter : (text ++ rest).takeWhile isDigit = [])
    (fits : byteCount (Nat.toDigits 10 (byteCount text) ++ (text ++ rest)) < lengthBound) :
    readSized (Nat.toDigits 10 (byteCount text) ++ (text ++ rest)) = .ok (text, rest) := by
  have digits : (Nat.toDigits 10 (byteCount text) ++ (text ++ rest)).takeWhile isDigit =
      Nat.toDigits 10 (byteCount text) := by
    rw [List.takeWhile_append_of_pos isDigit_of_mem_toDigits, letter, List.append_nil]
  have behind : (Nat.toDigits 10 (byteCount text) ++ (text ++ rest)).dropWhile isDigit =
      text ++ rest := by
    rw [List.dropWhile_append_of_pos isDigit_of_mem_toDigits, dropWhile_eq_self letter]
  have number : natOfDigits (Nat.toDigits 10 (byteCount text)) = byteCount text := by
    rw [natOfDigits_eq, Nat.ofDigitChars_ten_toDigits]
  have sizes : byteCount (Nat.toDigits 10 (byteCount text) ++ (text ++ rest)) =
      byteCount (Nat.toDigits 10 (byteCount text)) + (byteCount text + byteCount rest) := by
    rw [byteCount_append, byteCount_append]
  have short := length_le_byteCount (Nat.toDigits 10 (byteCount text))
  -- The end of the piece stays within the text, so that it does not wrap around.
  have stop : wrap (((Nat.toDigits 10 (byteCount text)).length : Int) + byteCount text) =
      (Nat.toDigits 10 (byteCount text)).length + byteCount text := by
    unfold lengthBound at fits
    apply Int.bmod_eq_of_le <;> omega
  unfold readSized
  dsimp only
  rw [digits, behind, number, stop, takeBytes?_append, sizes]
  rw [if_neg (by
      rintro (isEmpty | long)
      · exact Nat.toDigits_ne_nil isEmpty
      · omega),
    if_neg (by push_cast; omega), if_neg (by omega)]

private theorem takeWhile_isDigit_append (rest : List Char) (runsOn : ¬RunsIntoLength module) :
    (module.toList ++ rest).takeWhile isDigit = [] := by
  unfold RunsIntoLength at runsOn
  cases isModule : module.toList with
  | nil => simp [isModule] at runsOn
  | cons letter later =>
    simp only [isModule, List.head?_cons, Option.mem_some_iff, forall_eq'] at runsOn
    exact List.takeWhile_cons_of_neg runsOn

theorem demangle_ofFunction_eq_ok (isIdentifier : Token.IsIdentifier symbol)
    (fits : (ofFunction module symbol).utf8ByteSize < lengthBound)
    (runsOn : ¬RunsIntoLength module) :
    demangle (ofFunction module symbol) = .ok ⟨.function, module, symbol⟩ := by
  have marked := toList_ofFunction module symbol
  have letter : (symbol.toList ++ []).takeWhile isDigit = [] := by
    rw [List.append_nil]
    exact (Token.isIdentifier_iff.mp isIdentifier).1.takeWhile_isDigit
  rw [← byteCount_toList, marked] at fits
  have noType : afterMark? typeMark (ofFunction module symbol).toList = none := by
    rw [marked]
    rfl
  have isFunction : afterMark? functionMark (ofFunction module symbol).toList =
      some (Nat.toDigits 10 (byteCount module.toList) ++ (module.toList ++
        (Nat.toDigits 10 (byteCount symbol.toList) ++ symbol.toList))) := by
    rw [marked]
    rfl
  have readModule := readSized_succeeds
    (takeWhile_isDigit_append
      (Nat.toDigits 10 (byteCount symbol.toList) ++ symbol.toList) runsOn)
    (by simp only [byteCount, byteCount_append] at fits ⊢; omega)
  have readSymbol := readSized_succeeds letter
    (by simp only [byteCount, byteCount_append] at fits ⊢; omega)
  rw [List.append_nil] at readSymbol
  simp only [demangle, noType, isFunction, readModule, readSymbol, bind, Except.bind, pure,
    Except.pure, if_true, String.ofList_toList]

/-- An id that is empty or starts with a digit is not read back: the length that is read is larger
than the length that was written. -/
theorem not_runsIntoLength (isIdentifier : Token.IsIdentifier symbol)
    (demangled : demangle (ofFunction module symbol) = .ok ⟨.function, module, symbol⟩) :
    ¬RunsIntoLength module := by
  intro runsOn
  obtain ⟨first, _, readFirst, _, _, isModule, _⟩ :=
    demangle_function (toList_ofFunction module symbol) demangled
  have sameModule : first.1 = module.toList := by
    have letters := congrArg String.toList isModule
    rw [String.toList_ofList] at letters
    exact letters.symm
  obtain ⟨_, _, counted⟩ := readSized_eq_ok readFirst
  rw [sameModule, natOfDigits_eq, List.takeWhile_append_of_pos isDigit_of_mem_toDigits,
    Nat.ofDigitChars_append, Nat.ofDigitChars_ten_toDigits] at counted
  cases isId : module.toList with
  | nil =>
    obtain ⟨wordChars, _⟩ := Token.isIdentifier_iff.mp isIdentifier
    have letter := wordChars.takeWhile_isDigit
    obtain ⟨c, tail, isSymbol, _, _⟩ := wordChars
    have positive : 0 < byteCount symbol.toList := byteCount_pos (by rw [isSymbol]; simp)
    rw [isId, List.nil_append, List.takeWhile_append_of_pos isDigit_of_mem_toDigits,
      letter, List.append_nil] at counted
    change 0 = Nat.ofDigitChars 10 _ 0 at counted
    rw [Nat.ofDigitChars_ten_toDigits] at counted
    omega
  | cons letter later =>
    have digit : isDigit letter = true := by
      apply runsOn
      rw [isId]
      rfl
    rw [isId, List.cons_append, List.takeWhile_cons_of_pos digit, Nat.ofDigitChars_cons]
      at counted
    have read := le_ofDigitChars
      ((later ++ (Nat.toDigits 10 (byteCount symbol.toList) ++
        symbol.toList)).takeWhile isDigit)
      (10 * byteCount (letter :: later) + (letter.toNat - '0'.toNat))
    have positive := byteCount_pos (List.cons_ne_nil letter later)
    omega

private theorem ofType_ne_ofFunction (module symbol otherModule otherSymbol : String) :
    ofType module symbol ≠ ofFunction otherModule otherSymbol := by
  intro same
  have heads := congrArg (fun name => name.toList.head?) same
  simp only [toList_ofFunction, ofType, String.toList_append, List.append_assoc] at heads
  cases heads

/-- The module and the symbol of a mangled name are recovered unless the id of the module shows a
scope (types), is empty or starts with a digit (functions); and two mangled names agree only if all
their parts agree, or if they are functions and the id of a module is empty or starts with a
digit. -/
theorem demangle_mangle_iff {module symbol : String} (isIdentifier : Token.IsIdentifier symbol)
    (fits : (ofFunction module symbol).utf8ByteSize < lengthBound) :
    (demangle (mangle .type module symbol) = .ok ⟨.type, module, symbol⟩ ↔ ¬ShowsScope module) ∧
    (demangle (mangle .function module symbol) = .ok ⟨.function, module, symbol⟩ ↔
      ¬RunsIntoLength module) ∧
    ∀ (kind other : NameKind) (otherModule otherSymbol : String), Token.IsIdentifier otherSymbol →
      mangle kind module symbol = mangle other otherModule otherSymbol →
      kind = other ∧ ((module = otherModule ∧ symbol = otherSymbol) ∨
        kind = .function ∧ (RunsIntoLength module ∨ RunsIntoLength otherModule)) := by
  refine ⟨demangle_ofType module symbol, ?_, ?_⟩
  · constructor
    · exact not_runsIntoLength isIdentifier
    · exact demangle_ofFunction_eq_ok isIdentifier fits
  intro kind other otherModule otherSymbol otherIsIdentifier same
  cases kind with
  | type =>
    cases other with
    | type => exact ⟨rfl, .inl (ofType_inj isIdentifier otherIsIdentifier same)⟩
    | function => exact absurd same (ofType_ne_ofFunction _ _ _ _)
  | function =>
    cases other with
    | type => exact absurd same.symm (ofType_ne_ofFunction _ _ _ _)
    | function =>
      change ofFunction module symbol = ofFunction otherModule otherSymbol at same
      refine ⟨rfl, ?_⟩
      by_cases runsOn : RunsIntoLength module
      · exact .inr ⟨rfl, .inl runsOn⟩
      by_cases otherRunsOn : RunsIntoLength otherModule
      · exact .inr ⟨rfl, .inr otherRunsOn⟩
      have split := demangle_ofFunction_eq_ok isIdentifier fits runsOn
      rw [same] at fits
      have otherSplit := demangle_ofFunction_eq_ok otherIsIdentifier fits otherRunsOn
      rw [same, otherSplit] at split
      cases split
      exact .inl ⟨rfl, rfl⟩

/-- A function of the module `1a` has the mangled name of a function of another module, and is taken
for it. -/
theorem demangle_mangle_numbered :
    Token.IsIdentifier "cccccccccccccccccc1x" ∧
    (ofFunction "1a" "cccccccccccccccccc1x").utf8ByteSize < lengthBound ∧
    demangle (mangle .function "1a" "cccccccccccccccccc1x") =
      .ok ⟨.function, "a20cccccccccccccccccc", "x"⟩ ∧
    mangle .function "1a" "cccccccccccccccccc1x" =
      mangle .function "a20cccccccccccccccccc" "x" ∧
    demangle (mangle .type "1a" "cccccccccccccccccc1x") =
      .ok ⟨.type, "1a", "cccccccccccccccccc1x"⟩ ∧
    demangle (mangle .function "1a" "cccccccccccccccccc1x") ≠
      .ok ⟨.function, "1a", "cccccccccccccccccc1x"⟩ := by
  have isIdentifier : Token.IsIdentifier "cccccccccccccccccc1x" :=
    Token.isIdentifier_iff.mpr ⟨⟨'c', _, rfl, by decide, by decide⟩, by decide⟩
  have fits : (ofFunction "1a" "cccccccccccccccccc1x").utf8ByteSize < lengthBound := by decide
  obtain ⟨typeIff, functionIff, _⟩ := demangle_mangle_iff isIdentifier fits
  refine ⟨isIdentifier, fits, by decide, by decide, typeIff.mpr (by decide), ?_⟩
  exact fun recovered => functionIff.mp recovered (by decide)

end Kronk.Name
