import Kronk.Proofs.Scanning
import Mathlib.Data.List.Chain

/-!
# The numbers of the scanner

At a digit the scanner takes the longest run of characters that a number goes on with, and accepts
it by the order of its marks and by what can be read.  The runs that pass both are the numerals.
-/

namespace Kronk

namespace Decimal

/-- At least one digit, and nothing else. -/
def Digits (chars : List Char) : Prop := chars ≠ [] ∧ chars.all isDigit = true

/-- What may follow an exponent mark, with its value: `['-'] D+`. -/
inductive Power : List Char → Int → Prop
  | up {digits : List Char} : Digits digits → Power digits (natOfDigits digits)
  | down {digits : List Char} : Digits digits → Power ('-' :: digits) (-natOfDigits digits)

/-- What may follow the whole part, with the digits of the fraction: `['.' D*]`. -/
inductive Point : List Char → List Char → Prop
  | none : Point [] []
  | some {fraction : List Char} : fraction.all isDigit = true → Point ('.' :: fraction) fraction

/-- The numerals, with the decimals that they write: `D+ ['.' D*]` and
`D+ ['.' D+] 'e' ['-'] D+`. -/
inductive Numeral : List Char → Decimal → Prop
  | plain {whole point fraction : List Char} : Digits whole → Point point fraction →
      Numeral (whole ++ point) ⟨natOfDigits (whole ++ fraction), -fraction.length⟩
  | scaled {whole point fraction power : List Char} {scale : Int} : Digits whole →
      Point point fraction → point ≠ ['.'] → Power power scale →
      Numeral (whole ++ (point ++ 'e' :: power))
        ⟨natOfDigits (whole ++ fraction), scale - fraction.length⟩

end Decimal

namespace Token

open Decimal

variable {decimal : Decimal} {scale : Int}
variable {digits power whole point fraction rest run : List Char}

/-- Digits pass the check, which then stands behind the last of them. -/
theorem marksFit_digits (marks : NumberMarks) (previous : Option Char)
    (all : digits.all isDigit = true) (rest : List Char) :
    marksFit marks previous (digits ++ rest) =
      marksFit marks (digits.getLast?.or previous) rest := by
  induction digits generalizing previous with
  | nil => rfl
  | cons c digits ih =>
    obtain ⟨isDigit, others⟩ := Bool.and_eq_true_iff.mp all
    have apart : c ≠ '.' ∧ c ≠ '-' ∧ c ≠ 'e' := by
      refine ⟨?_, ?_, ?_⟩ <;> rintro rfl <;> cases isDigit
    rw [List.cons_append, marksFit]
    simp only [beq_iff_eq, apart, if_false, ih _ others, List.getLast?_cons]
    cases digits.getLast? <;> rfl

/-- What passes the check after an exponent mark and can be read there. -/
theorem power_iff (marks : NumberMarks) (noHyphen : marks.hyphen = false) :
    (power.head?.any (fun next => isDigit next || next == '-') = true ∧
      marksFit marks (some 'e') power = true) ∧ readExponent? power = some scale ↔
      Power power scale := by
  constructor
  · rintro ⟨⟨starts, -⟩, found⟩
    unfold readExponent? at found
    split at found
    next negative digits isRest =>
    obtain ⟨isDigits, ⟨⟩⟩ : Digits digits ∧ _ := Option.ite_none_right_eq_some.mp found
    split at isRest <;> cases isRest
    · exact .down isDigits
    · cases starts
    · exact .up isDigits
  · rintro (@⟨digits, isDigits⟩ | @⟨digits, isDigits⟩)
    · have fits := marksFit_digits marks (some 'e') isDigits.2 []
      rw [List.append_nil] at fits
      obtain ⟨c, others, rfl⟩ := List.exists_cons_of_ne_nil isDigits.1
      have first : isDigit c = true := by simp_all [Digits]
      refine ⟨⟨by simp [first], fits⟩, ?_⟩
      unfold readExponent?
      split
      next negative rest isRest =>
      split at isRest
      · next isHere => cases isHere; exact absurd first (by decide)
      · next isHere => cases isHere; exact absurd first (by decide)
      · cases isRest; exact if_pos isDigits
    · have fits := marksFit_digits { marks with hyphen := true } (some '-') isDigits.2 []
      rw [List.append_nil] at fits
      exact ⟨⟨rfl, by simp [marksFit, noHyphen, fits]⟩, if_pos isDigits⟩

theorem marksFit_mantissa (isWhole : Digits whole) (isPoint : Point point fraction) :
    ∃ last, (isDigit last = true ↔ point ≠ ['.']) ∧ ∀ rest,
      marksFit {} none (whole ++ (point ++ rest)) =
        marksFit { point := !point.isEmpty } (some last) rest := by
  obtain ⟨someDigit, all⟩ := isWhole
  cases isPoint with
  | none =>
    refine ⟨whole.getLast someDigit, by simp_all, fun rest => ?_⟩
    simp [marksFit_digits _ _ all, List.getLast?_eq_some_getLast someDigit]
  | @some fraction isFraction =>
    refine ⟨fraction.getLast?.getD '.', ?_, fun rest => ?_⟩
    · rcases eq_or_ne fraction [] with rfl | isSome
      · simp; decide
      · simp_all [List.getLast?_eq_some_getLast isSome]
    · simp [marksFit_digits _ _ all, marksFit, marksFit_digits _ _ isFraction]

theorem read?_mantissa (isWhole : Digits whole) (isPoint : Point point fraction)
    (stop : ∀ c ∈ rest.head?, isDigit c = false) (noPoint : point = [] → rest.head? ≠ some '.') :
    read? (whole ++ (point ++ rest)) = some decimal ↔
      ∃ scale : Int, decimal = ⟨natOfDigits (whole ++ fraction), scale - fraction.length⟩ ∧
        (rest = [] ∧ scale = 0 ∨
          ∃ power, rest = 'e' :: power ∧ readExponent? power = some scale) := by
  obtain ⟨someDigit, all⟩ := isWhole
  -- nothing follows, an exponent, or a character that cannot be read
  have cases : rest = [] ∨ (∃ power, rest = 'e' :: power) ∨
      rest ≠ [] ∧ ∀ power, rest ≠ 'e' :: power := by grind
  cases isPoint with
  | none =>
    have plain : ∀ tail, rest = '.' :: tail → False := by rintro tail rfl; exact noPoint rfl rfl
    have whole := takeWhile_of_stop (List.all_eq_true.mp all) stop
    rcases cases with rfl | ⟨power, rfl⟩ | ⟨isSome, noPower⟩
    · rw [List.append_nil] at whole
      simp [read?, whole, someDigit, eq_comm (b := decimal)]
    · simp [read?, whole, someDigit, Option.bind_eq_some_iff, and_comm, eq_comm (b := decimal)]
    · simp [read?, whole, someDigit, isSome, noPower]
  | @some fraction isFraction =>
    have mark : ∀ c ∈ ('.' :: (fraction ++ rest)).head?, isDigit c = false := by simp; decide
    have whole := takeWhile_of_stop (List.all_eq_true.mp all) mark
    have part := takeWhile_of_stop (List.all_eq_true.mp isFraction) stop
    rcases cases with rfl | ⟨power, rfl⟩ | ⟨isSome, noPower⟩
    · rw [List.append_nil] at whole part
      simp [read?, whole, part, someDigit, eq_comm (b := decimal)]
    · simp [read?, whole, part, someDigit, Option.bind_eq_some_iff, and_comm,
        eq_comm (b := decimal)]
    · simp [read?, whole, part, someDigit, isSome, noPower]

/-- Every run that starts with a digit has a whole part and a point. -/
theorem exists_mantissa (starts : run.head?.any isDigit = true) :
    ∃ whole point fraction rest, run = whole ++ (point ++ rest) ∧ Digits whole ∧
      Point point fraction ∧ (∀ c ∈ rest.head?, isDigit c = false) ∧
      (point = [] → rest.head? ≠ some '.') := by
  obtain ⟨whole, rest, rfl, all, stop⟩ := exists_stop isDigit run
  have isWhole : Digits whole := by
    refine ⟨?_, List.all_eq_true.mpr all⟩
    rintro rfl
    cases rest <;> simp_all
  by_cases isNext : rest.head? = some '.'
  · obtain ⟨tail, rfl⟩ := List.head?_eq_some_iff.mp isNext
    obtain ⟨fraction, rest, rfl, isFraction, stop⟩ := exists_stop isDigit tail
    exact ⟨whole, _, fraction, rest, rfl, isWhole, .some (List.all_eq_true.mpr isFraction), stop,
      nofun⟩
  · exact ⟨whole, [], [], rest, rfl, isWhole, .none, stop, fun _ => isNext⟩

/-- The runs that pass the check and can be read are the numerals. -/
theorem numeral_iff (starts : run.head?.any isDigit = true) :
    marksFit {} none run = true ∧ read? run = some decimal ↔ Numeral run decimal := by
  constructor
  · rintro ⟨fits, found⟩
    obtain ⟨whole, point, fraction, rest, rfl, isWhole, isPoint, stop, noPoint⟩ :=
      exists_mantissa starts
    obtain ⟨last, isLast, fitsAt⟩ := marksFit_mantissa isWhole isPoint
    rw [fitsAt] at fits
    obtain ⟨scale, rfl, ⟨rfl, rfl⟩ | ⟨power, rfl, isPower⟩⟩ :=
      (read?_mantissa isWhole isPoint stop noPoint).mp found
    · simpa using Numeral.plain isWhole isPoint
    · obtain ⟨⟨follows, starts⟩, fits⟩ :
          (isDigit last = true ∧ power.head?.any (fun next => isDigit next || next == '-') = true) ∧
            marksFit { point := !point.isEmpty, exponent := true } (some 'e') power = true := by
        simpa [marksFit] using fits
      exact .scaled isWhole isPoint (isLast.mp follows)
        ((power_iff _ rfl).mp ⟨⟨starts, fits⟩, isPower⟩)
  · rintro (@⟨whole, point, fraction, isWhole, isPoint⟩ |
      @⟨whole, point, fraction, power, scale, isWhole, isPoint, someDigit, isPower⟩)
    all_goals obtain ⟨last, isLast, fitsAt⟩ := marksFit_mantissa isWhole isPoint
    · have fits := fitsAt []
      have stop : ∀ c ∈ ([] : List Char).head?, isDigit c = false := by simp
      have found := (read?_mantissa isWhole isPoint stop (by simp)).mpr ⟨0, rfl, .inl ⟨rfl, rfl⟩⟩
      rw [List.append_nil] at fits found
      exact ⟨fits, by simpa using found⟩
    · obtain ⟨⟨starts, fits⟩, found⟩ :=
        (power_iff { point := !point.isEmpty, exponent := true } rfl).mpr isPower
      have stop : ∀ c ∈ ('e' :: power).head?, isDigit c = false := by simp; decide
      refine ⟨?_, (read?_mantissa isWhole isPoint stop (by simp)).mpr
        ⟨scale, rfl, .inr ⟨power, rfl, found⟩⟩⟩
      rw [fitsAt]
      simp [marksFit, isLast.mpr someDigit, starts, fits]

/-- What a number goes on with: a digit, a point, an exponent mark, or a hyphen directly after an
exponent mark. -/
def Extends (previous c : Char) : Prop :=
  isDigit c = true ∨ c = '.' ∨ c = 'e' ∨ c = '-' ∧ previous = 'e'

theorem numberRun_longest (previous : Char) (text : List Char) :
    (previous :: (numberRun previous text).1).IsChain Extends ∧
      ∀ other, other <+: previous :: text → other.IsChain Extends →
        other <+: previous :: (numberRun previous text).1 := by
  fun_induction numberRun previous text with
  | case1 => exact ⟨.singleton _, fun _ front _ => front⟩
  | case2 previous d rest belongs run after eq ih =>
    rw [eq] at ih
    refine ⟨.cons_cons (by simpa [Extends, or_assoc] using belongs) ih.1, ?_⟩
    rintro (_ | ⟨_, other⟩) front chain
    · exact List.nil_prefix
    · obtain ⟨rfl, inner⟩ := List.cons_prefix_cons.mp front
      exact List.cons_prefix_cons.mpr ⟨rfl, ih.2 other inner chain.tail⟩
  | case3 previous d rest ends =>
    refine ⟨.singleton _, ?_⟩
    rintro (_ | ⟨_, _ | ⟨_, other⟩⟩) front chain
    · exact List.nil_prefix
    · exact List.cons_prefix_cons.mpr ⟨(List.cons_prefix_cons.mp front).1, List.nil_prefix⟩
    · simp only [List.cons_prefix_cons] at front
      obtain ⟨rfl, rfl, -⟩ := front
      exact absurd (List.isChain_cons_cons.mp chain).1 (by simpa [Extends, or_assoc] using ends)

/-- At a digit the scanner takes the longest run of characters that a number goes on with.  It gives
a number if the run is a numeral and does not round to infinity, and else fails with the run. -/
theorem number_scanned (line : Nat) {c : Char} (first : isDigit c = true) (tail : List Char) :
    ∃ run rest, c :: tail = run ++ rest ∧ run.IsChain Extends ∧
      (∀ other, other <+: c :: tail → other.IsChain Extends → other <+: run) ∧
      (∀ value, scanStep line (c :: tail) =
          .token ⟨.number (String.ofList run) value, line⟩ line rest ↔
        ∃ decimal, Numeral run decimal ∧ Binary64.ofDecimal? decimal = some value) ∧
      ((∀ decimal, Numeral run decimal → Binary64.ofDecimal? decimal = none) →
        ∃ error, scanStep line (c :: tail) = .failure error line ∧
          error.message = "Error reading Number " ++ String.ofList run) := by
  obtain ⟨chain, longest⟩ := numberRun_longest c tail
  have noBlank : isBlank c = false := not_isBlank first ⟨rfl, rfl, rfl⟩
  have accepted (value : Binary64) : numberValue? (c :: (numberRun c tail).1) = some value ↔
      ∃ decimal, Numeral (c :: (numberRun c tail).1) decimal ∧
        Binary64.ofDecimal? decimal = some value := by
    have starts : (c :: (numberRun c tail).1).head?.any isDigit = true := first
    simp [numberValue?, ← numeral_iff starts, Option.bind_eq_some_iff, and_assoc]
  rw [scanStep_of_noBlank line noBlank, scanFrom_digit line first]
  refine ⟨_, _, congrArg (c :: ·) (numberRun_split c tail).1.symm, chain, longest,
    fun value => ?_, fun noValue => ⟨.badNumber _, ?_, rfl⟩⟩
  · rw [← accepted]
    split <;> simp_all
  · split
    · next value found =>
      obtain ⟨decimal, numeral, rounds⟩ := (accepted value).mp found
      rw [noValue decimal numeral] at rounds
      cases rounds
    · rfl

theorem number_scanned_zero : isDigit '0' = true ∧
    ∃ run rest, "0.0e-1x".toList = run ++ rest ∧ run.IsChain Extends ∧
      (scanStep 7 "0.0e-1x".toList = .token ⟨.number (String.ofList run) .zero, 7⟩ 7 rest ↔
        ∃ decimal, Numeral run decimal ∧ Binary64.ofDecimal? decimal = some .zero) := by
  obtain ⟨run, rest, joined, chain, _, accepted, _⟩ :=
    number_scanned 7 (show isDigit '0' = true from rfl) ".0e-1x".toList
  exact ⟨rfl, run, rest, joined, chain, accepted .zero⟩

end Token

end Kronk
