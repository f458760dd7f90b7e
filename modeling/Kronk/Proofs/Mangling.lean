import Kronk.Name
import Mathlib.Data.String.Basic

/-!
# What mangled names show

The id of a module may start with a digit, and then the length in front of it runs into it.  For
short symbols that does no harm: a name that is split at all is split where it was put together.
-/

namespace Kronk.Name

open Decimal (isDigit natOfDigits)

theorem natOfDigits_eq (digits : List Char) :
    natOfDigits digits = Nat.ofDigitChars 10 digits 0 := by
  simp only [natOfDigits, Nat.ofDigitChars, Nat.mul_comm]

theorem le_ofDigitChars (digits : List Char) (start : Nat) :
    start ≤ Nat.ofDigitChars 10 digits start := by
  induction digits generalizing start with
  | nil => exact Nat.le_refl start
  | cons digit rest ih =>
    rw [Nat.ofDigitChars_cons]
    have larger := ih (10 * start + (digit.toNat - '0'.toNat))
    omega

theorem byteCount_append (first second : List Char) :
    byteCount (first ++ second) = byteCount first + byteCount second := by
  induction first with
  | nil => simp [byteCount]
  | cons letter rest ih => simp [byteCount, ih, Nat.add_assoc]

variable {text rest : List Char} {parts : List Char × List Char}

theorem byteCount_pos (nonempty : text ≠ []) : 0 < byteCount text := by
  cases text with
  | nil => exact absurd rfl nonempty
  | cons letter rest =>
    have positive := letter.utf8Size_pos
    simp only [byteCount]
    omega

theorem byteCount_toList (text : String) : byteCount text.toList = text.utf8ByteSize := by
  have counts : ∀ letters, byteCount letters = String.utf8Len letters := by
    intro letters
    induction letters with
    | nil => rfl
    | cons letter rest ih =>
      rw [byteCount, ih, String.utf8Len_cons, Nat.add_comm]
  rw [counts, ← String.utf8ByteSize_ofList, String.ofList_toList]

theorem append_inj_of_byteCount {first second other : List Char}
    (same : first ++ rest = second ++ other) (sized : byteCount first = byteCount second) :
    first = second ∧ rest = other := by
  rcases List.append_eq_append_iff.mp same with ⟨more, rfl, rfl⟩ | ⟨more, rfl, rfl⟩
  · rw [byteCount_append] at sized
    by_cases isEmpty : more = []
    · simp [isEmpty]
    · have := byteCount_pos isEmpty
      omega
  · rw [byteCount_append] at sized
    by_cases isEmpty : more = []
    · simp [isEmpty]
    · have := byteCount_pos isEmpty
      omega

theorem takeBytes?_eq_some {count : Nat} (taken : takeBytes? count text = some parts) :
    text = parts.1 ++ parts.2 ∧ byteCount parts.1 = count := by
  induction count, text using takeBytes?.induct generalizing parts with
  | case1 text =>
    rw [takeBytes?, Option.some.injEq] at taken
    subst taken
    exact ⟨rfl, rfl⟩
  | case2 count => cases taken
  | case3 count letter rest fits ih =>
    rw [takeBytes?, if_pos fits] at taken
    obtain ⟨later, isLater, rfl⟩ := Option.map_eq_some_iff.mp taken
    obtain ⟨split, counted⟩ := ih isLater
    refine ⟨congrArg (letter :: ·) split, ?_⟩
    simp only [byteCount, counted]
    omega
  | case4 count letter rest tooLong =>
    rw [takeBytes?, if_neg tooLong] at taken
    cases taken

/-- A sized piece is as long as the digits in front of it say. -/
theorem readSized_eq_ok (read : readSized text = .ok parts) :
    text.takeWhile isDigit ≠ [] ∧ text.dropWhile isDigit = parts.1 ++ parts.2 ∧
      byteCount parts.1 = natOfDigits (text.takeWhile isDigit) := by
  unfold readSized at read
  dsimp only at read
  split at read
  · cases read
  rename_i settled
  split at read
  · cases read
  split at read
  · cases read
  cases taken : takeBytes? (natOfDigits (text.takeWhile isDigit)) (text.dropWhile isDigit) with
  | none =>
    rw [taken] at read
    cases read
  | some found =>
    rw [taken] at read
    cases read
    exact ⟨fun isEmpty => settled (.inl isEmpty), takeBytes?_eq_some taken⟩

private theorem toList_sized (text : String) :
    (sized text).toList = Nat.toDigits 10 text.utf8ByteSize ++ text.toList := by
  rw [sized, String.toList_append]
  exact congrArg (· ++ text.toList) Nat.toList_repr

theorem isDigit_of_mem_toDigits {number : Nat} :
    ∀ letter ∈ Nat.toDigits 10 number, isDigit letter := by
  intro letter member
  have := Nat.isDigit_of_mem_toDigits (by decide) (by decide) member
  simpa [isDigit, Char.isDigit, Char.le_def] using this

theorem toList_ofFunction (module symbol : String) :
    (ofFunction module symbol).toList = '_' :: 'Z' ::
      (Nat.toDigits 10 (byteCount module.toList) ++ (module.toList ++
        (Nat.toDigits 10 (byteCount symbol.toList) ++ symbol.toList))) := by
  simp only [ofFunction, String.toList_append, toList_sized, byteCount_toList, List.append_assoc]
  rfl

theorem demangle_function {name : String} {parts : NameParts}
    (marked : name.toList = '_' :: 'Z' :: text) (demangled : demangle name = .ok parts) :
    ∃ first second, readSized text = .ok first ∧ readSized first.2 = .ok second ∧
      second.2 = [] ∧ parts.module = String.ofList first.1 ∧
      parts.symbol = String.ofList second.1 := by
  have noType : afterMark? typeMark name.toList = none := by
    rw [marked]
    rfl
  have isFunction : afterMark? functionMark name.toList = some text := by
    rw [marked]
    rfl
  unfold demangle at demangled
  rw [noType, isFunction] at demangled
  dsimp only at demangled
  cases readFirst : readSized text with
  | error error =>
    rw [readFirst] at demangled
    cases demangled
  | ok first =>
    rw [readFirst] at demangled
    change (readSized first.2 >>= _) = _ at demangled
    cases readSecond : readSized first.2 with
    | error error =>
      rw [readSecond] at demangled
      cases demangled
    | ok second =>
      rw [readSecond] at demangled
      change (if second.2 = [] then _ else _) = _ at demangled
      by_cases isEmpty : second.2 = []
      · rw [if_pos isEmpty] at demangled
        cases demangled
        exact ⟨first, second, rfl, readSecond, isEmpty, rfl, rfl⟩
      · rw [if_neg isEmpty] at demangled
        cases demangled

theorem dropWhile_eq_self (letter : text.takeWhile isDigit = []) :
    text.dropWhile isDigit = text := by
  have whole := List.takeWhile_append_dropWhile (p := isDigit) (l := text)
  rwa [letter, List.nil_append] at whole

/-- A sized piece in front of a text is read back, unless it starts with a digit. -/
theorem readSized_sized (letter : (text ++ rest).takeWhile isDigit = [])
    (read : readSized (Nat.toDigits 10 (byteCount text) ++ (text ++ rest)) = .ok parts) :
    parts = (text, rest) := by
  obtain ⟨_, split, counted⟩ := readSized_eq_ok read
  rw [List.takeWhile_append_of_pos isDigit_of_mem_toDigits, letter, List.append_nil,
    natOfDigits_eq, Nat.ofDigitChars_ten_toDigits] at counted
  rw [List.dropWhile_append_of_pos isDigit_of_mem_toDigits, dropWhile_eq_self letter]
    at split
  obtain ⟨isText, isRest⟩ := append_inj_of_byteCount split counted.symm
  exact Prod.ext isText.symm isRest.symm

/-- A length that runs into the piece after it asks for too much. -/
theorem readSized_digit {letter : Char} (digit : isDigit letter = true) (short : byteCount rest ≤ 9)
    (read : readSized (Nat.toDigits 10 (byteCount (letter :: text)) ++ (letter :: text ++ rest)) =
      .ok parts) : False := by
  obtain ⟨_, split, counted⟩ := readSized_eq_ok read
  rw [List.takeWhile_append_of_pos isDigit_of_mem_toDigits, List.cons_append,
    List.takeWhile_cons_of_pos digit, natOfDigits_eq, Nat.ofDigitChars_append,
    Nat.ofDigitChars_ten_toDigits, Nat.ofDigitChars_cons] at counted
  rw [List.dropWhile_append_of_pos isDigit_of_mem_toDigits, List.cons_append,
    List.dropWhile_cons_of_pos digit] at split
  have asked := le_ofDigitChars ((text ++ rest).takeWhile isDigit)
    (10 * byteCount (letter :: text) + (letter.toNat - '0'.toNat))
  have available := byteCount_append ((text ++ rest).takeWhile isDigit) (parts.1 ++ parts.2)
  rw [← split, List.takeWhile_append_dropWhile, byteCount_append, split, byteCount_append]
    at available
  have sized : byteCount (letter :: text) = letter.utf8Size + byteCount text := rfl
  have positive := letter.utf8Size_pos
  omega

/-- The first scope is the one that was written between two texts if none can be read before it. -/
theorem splitScope?_append (first second : List Char) :
    splitScope? (first ++ ':' :: ':' :: second) = some (first, second) ↔
      ¬[':', ':'] <:+: first ++ [':'] := by
  induction first with
  | nil =>
    have short : ¬[':', ':'] <:+: [':'] := by decide
    simp [splitScope?, short]
  | cons letter rest ih =>
    obtain ⟨next, later, isNext⟩ : ∃ next later, rest ++ [':'] = next :: later := by
      cases rest with
      | nil => exact ⟨':', [], rfl⟩
      | cons next later => exact ⟨next, later ++ [':'], rfl⟩
    have text : rest ++ ':' :: ':' :: second = next :: (later ++ ':' :: second) := by
      rw [List.append_cons, isNext, List.cons_append]
    have here : [':', ':'] <+: letter :: next :: later ↔ letter = ':' ∧ next = ':' := by
      simp [List.cons_prefix_cons, eq_comm]
    rw [List.cons_append, List.cons_append, List.infix_cons_iff, not_or, isNext, here, ← isNext,
      ← ih, text, splitScope?]
    by_cases isScope : letter = ':' ∧ next = ':'
    · simp [isScope]
    · simp [isScope]

/-- A function name with a short symbol that is split shows its module and its symbol. -/
theorem demangle_ofFunction {module symbol : String} {parts : NameParts}
    (short : symbol.utf8ByteSize ≤ 8) (isLetter : symbol.toList.takeWhile isDigit = [])
    (demangled : demangle (ofFunction module symbol) = .ok parts) :
    parts.module = module ∧ parts.symbol = symbol := by
  obtain ⟨first, second, readFirst, readSecond, isEmpty, isModule, isSymbol⟩ :=
    demangle_function (toList_ofFunction module symbol) demangled
  rw [isModule, isSymbol]
  cases isId : module.toList with
  | nil =>
    -- The digit of the empty id is read as a part of the next length, and nothing is left.
    rw [isId] at readFirst
    change readSized ('0' :: (Nat.toDigits 10 (byteCount symbol.toList) ++ symbol.toList)) = _
      at readFirst
    obtain ⟨_, split, counted⟩ := readSized_eq_ok readFirst
    rw [List.dropWhile_cons_of_pos rfl, List.dropWhile_append_of_pos isDigit_of_mem_toDigits,
      dropWhile_eq_self isLetter] at split
    rw [List.takeWhile_cons_of_pos rfl, List.takeWhile_append_of_pos isDigit_of_mem_toDigits,
      isLetter, List.append_nil, natOfDigits_eq, Nat.ofDigitChars_cons] at counted
    change _ = Nat.ofDigitChars 10 _ 0 at counted
    rw [Nat.ofDigitChars_ten_toDigits] at counted
    have nothing := (append_inj_of_byteCount ((List.append_nil _).trans split) counted.symm).2
    rw [← nothing] at readSecond
    exact absurd rfl (readSized_eq_ok readSecond).1
  | cons letter rest =>
    rw [isId] at readFirst
    by_cases digit : isDigit letter = true
    · have single : ∀ count ≤ 8, byteCount (Nat.toDigits 10 count) = 1 := by decide
      have counts :
          byteCount (Nat.toDigits 10 (byteCount symbol.toList) ++ symbol.toList) ≤ 9 := by
        rw [byteCount_append, byteCount_toList, single _ short]
        omega
      exact absurd readFirst fun read => readSized_digit digit counts read
    · have isFirst := readSized_sized (List.takeWhile_cons_of_neg digit) readFirst
      subst isFirst
      have isSecond : second = (symbol.toList, []) := by
        apply readSized_sized
        · rw [List.append_nil]
          exact isLetter
        · rw [List.append_nil]
          exact readSecond
      subst isSecond
      rw [← isId]
      exact ⟨String.ofList_toList, String.ofList_toList⟩

end Kronk.Name
