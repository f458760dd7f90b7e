import Kronk.Proofs.Demangling
import Kronk.Proofs.Lookups

/-!
# Where the pieces of a mangled name end

The end of a sized piece is computed in 64 bits.  It falls before the start of the piece exactly if
the length is a 64-bit number and the end is none; every other piece that is cut out lies in the
text.  Names of modules whose id does not run into its length are never cut wrongly.  Cutting a
piece out of bounds is a panic, of splitting a name and of every lookup of it.
-/

namespace Kronk.Name

open Decimal (isDigit natOfDigits)
open Registry

/-- Where the piece after a length starts. -/
def pieceStart (text : List Char) : Nat := (text.takeWhile isDigit).length

def pieceLength (text : List Char) : Nat := natOfDigits (text.takeWhile isDigit)

/-- Where the piece ends, in 64 bits. -/
def pieceStop (text : List Char) : Int := wrap (pieceStart text + pieceLength text)

/-- The text starts with a length in 64 bits whose piece ends beyond them. -/
def Overruns (text : List Char) : Prop :=
  pieceStart text ≠ 0 ∧ pieceLength text < lengthBound ∧
    lengthBound ≤ pieceStart text + pieceLength text

instance (text : List Char) : Decidable (Overruns text) := inferInstanceAs (Decidable (_ ∧ _))

/-- The two pieces of a text behind its length are cut within the text. -/
structure CutsWithin (text : List Char) (parts : List Char × List Char) : Prop where
  whole : text = text.takeWhile isDigit ++ parts.1 ++ parts.2
  start : (byteCount (text.takeWhile isDigit) : Int) = pieceStart text
  ordered : (pieceStart text : Int) ≤ pieceStop text
  inside : pieceStop text ≤ byteCount text
  first : (byteCount parts.1 : Int) = pieceStop text - pieceStart text
  second : (byteCount parts.2 : Int) = byteCount text - pieceStop text

private theorem byteCount_digits {digits : List Char} (all : ∀ c ∈ digits, isDigit c = true) :
    byteCount digits = digits.length := by
  induction digits with
  | nil => rfl
  | cons digit rest ih =>
    have isAscii : digit.utf8Size = 1 := by
      have digitHere := all digit List.mem_cons_self
      simp only [isDigit, Bool.and_eq_true, decide_eq_true_eq, Char.le_def] at digitHere
      exact Char.utf8Size_eq_one_iff.mpr (UInt32.le_trans digitHere.2 (by decide))
    simp only [byteCount, isAscii, List.length_cons,
      ih fun c member => all c (List.mem_cons_of_mem _ member)]
    omega

theorem byteCount_takeWhile (text : List Char) :
    byteCount (text.takeWhile isDigit) = pieceStart text :=
  byteCount_digits fun _ => List.all_eq_true.mp List.all_takeWhile _

theorem byteCount_dropWhile (text : List Char) :
    pieceStart text + byteCount (text.dropWhile isDigit) = byteCount text := by
  rw [← byteCount_takeWhile, ← byteCount_append, List.takeWhile_append_dropWhile]

variable {text : List Char}

/-- The end of a piece wraps around exactly if it is no 64-bit number. -/
theorem pieceStop_cases (fits : byteCount text < lengthBound)
    (isLength : pieceLength text < lengthBound) :
    (pieceStart text + pieceLength text < lengthBound ∧
      pieceStop text = pieceStart text + pieceLength text) ∨
    (lengthBound ≤ pieceStart text + pieceLength text ∧ pieceStop text < 0) := by
  have start := byteCount_dropWhile text
  unfold pieceStop wrap
  unfold lengthBound at *
  by_cases short : pieceStart text + pieceLength text < 0x8000000000000000
  · refine .inl ⟨short, ?_⟩
    apply Int.bmod_eq_of_le <;> omega
  · refine .inr ⟨by omega, ?_⟩
    rw [Int.bmod_def]
    omega

/-- A piece that is read is cut within the text. -/
theorem cutsWithin_of_readSized {parts : List Char × List Char}
    (fits : byteCount text < lengthBound) (read : readSized text = .ok parts) :
    ¬Overruns text ∧ CutsWithin text parts := by
  obtain ⟨_, split, counted⟩ := readSized_eq_ok read
  have sizes := byteCount_dropWhile text
  rw [split, byteCount_append] at sizes
  have isLength : byteCount parts.1 = pieceLength text := counted
  have short : pieceStart text + pieceLength text < lengthBound := by omega
  obtain ⟨_, stop⟩ | ⟨long, _⟩ := pieceStop_cases fits (by omega)
  · refine ⟨fun overruns => Nat.not_le_of_lt short overruns.2.2, ?_⟩
    constructor
    · rw [List.append_assoc, ← split, List.takeWhile_append_dropWhile]
    · rw [byteCount_takeWhile]
    all_goals omega
  · exact absurd long (Nat.not_le_of_lt short)

/-- A piece is cut out of range exactly if its end overruns. -/
theorem readSized_outOfBounds_iff (fits : byteCount text < lengthBound) :
    (∃ stop, readSized text = .error (.outOfBounds stop)) ↔ Overruns text := by
  have isEmpty : text.takeWhile isDigit = [] ↔ pieceStart text = 0 := List.length_eq_zero_iff.symm
  constructor
  · rintro ⟨stop, read⟩
    unfold readSized at read
    dsimp only at read
    split at read
    · cases read
    rename_i settled
    rw [isEmpty, not_or, Nat.not_le] at settled
    split at read
    · cases read
    split at read
    · rename_i early
      have early : pieceStop text < pieceStart text := early
      obtain ⟨_, stop⟩ | ⟨long, _⟩ := pieceStop_cases fits settled.2
      · omega
      · exact ⟨settled.1, settled.2, long⟩
    · split at read <;> cases read
  · rintro ⟨started, isLength, long⟩
    obtain ⟨short, _⟩ | ⟨_, negative⟩ := pieceStop_cases fits isLength
    · exact absurd long (Nat.not_le_of_lt short)
    · have stop :
          wrap ((text.takeWhile isDigit).length + natOfDigits (text.takeWhile isDigit)) < 0 :=
        negative
      refine ⟨pieceStop text, ?_⟩
      unfold readSized
      dsimp only
      rw [if_neg (by
          rintro (none | tooLong)
          · exact started (isEmpty.mp none)
          · exact Nat.not_le_of_lt isLength tooLong),
        if_neg (by omega), if_pos (by omega)]
      rfl

private theorem toList_of_afterMark? {mark : String} {rest : List Char}
    (marked : afterMark? mark text = some rest) : text = mark.toList ++ rest := by
  unfold afterMark? at marked
  split at marked
  · rename_i isPrefix
    obtain ⟨later, rfl⟩ := List.isPrefixOf_iff_prefix.mp isPrefix
    cases marked
    simp [← String.length_toList]
  · cases marked

/-- Only names of functions are split by lengths. -/
theorem demangle_ne_outOfBounds {name : String}
    (noFunction : afterMark? functionMark name.toList = none) (stop : Int) :
    demangle name ≠ .error (.outOfBounds stop) := by
  unfold demangle
  rw [noFunction]
  split
  · split <;> rintro ⟨⟩
  · rintro ⟨⟩

/-- A mangled name is cut out of range exactly if the length of its module or the length of its
symbol overruns. -/
theorem demangle_function_outOfBounds_iff {name : String}
    (marked : name.toList = functionMark.toList ++ text) (fits : name.utf8ByteSize < lengthBound) :
    (∃ stop, demangle name = .error (.outOfBounds stop)) ↔
      Overruns text ∨ ∃ parts, readSized text = .ok parts ∧ Overruns parts.2 := by
  have noType : afterMark? typeMark name.toList = none := by
    rw [marked]
    rfl
  have isFunction : afterMark? functionMark name.toList = some text := by
    rw [marked]
    rfl
  rw [← byteCount_toList, marked, byteCount_append] at fits
  have textFits : byteCount text < lengthBound := by omega
  rw [← readSized_outOfBounds_iff textFits]
  unfold demangle
  rw [noType, isFunction]
  dsimp only
  cases read : readSized text with
  | error failure => simp [bind, Except.bind]
  | ok parts =>
    have cuts := (cutsWithin_of_readSized textFits read).2
    have restFits : byteCount parts.2 < lengthBound := by
      have ordered := cuts.ordered
      have second := cuts.second
      omega
    have inside : (∃ found, (.ok parts : Except DemangleError _) = .ok found ∧
        Overruns found.2) ↔ Overruns parts.2 := by simp
    rw [inside, ← readSized_outOfBounds_iff restFits]
    cases second : readSized parts.2 with
    | error failure => simp [second, bind, Except.bind]
    | ok others =>
      simp only [second, bind, Except.bind]
      split <;> simp [pure, Except.pure, throw, throwThe, MonadExceptOf.throw]

private theorem demangle_mangle_within {kind : NameKind} {module symbol : String}
    (isIdentifier : Token.IsIdentifier symbol)
    (fits : (mangle kind module symbol).utf8ByteSize < lengthBound)
    (apart : ¬RunsIntoLength module) :
    ¬∃ stop, demangle (mangle kind module symbol) = .error (.outOfBounds stop) := by
  rintro ⟨stop, cut⟩
  cases kind with
  | type =>
    refine demangle_ne_outOfBounds ?_ stop cut
    simp only [mangle, ofType, String.toList_append, List.append_assoc]
    rfl
  | function =>
    rw [mangle, demangle_ofFunction_eq_ok isIdentifier fits apart] at cut
    cases cut

/-- Splitting a name cuts a piece out of range exactly if one of the two lengths of a function
overruns.  Whatever is read is cut within its text, and a name that was put together from an id
that does not run into its length is never cut out of range.  Looking a name up in a registry, for
whatever it may stand for, is a panic exactly if splitting the name cuts it out of range. -/
theorem lookups_panic_iff (name : String) (fits : name.utf8ByteSize < lengthBound) :
    ((∃ stop, demangle name = .error (.outOfBounds stop)) ↔
      ∃ text, name.toList = functionMark.toList ++ text ∧
        (Overruns text ∨ ∃ parts, readSized text = .ok parts ∧ Overruns parts.2)) ∧
    (∀ text parts, name.toList = functionMark.toList ++ text → readSized text = .ok parts →
      CutsWithin text parts ∧
        ∀ others, readSized parts.2 = .ok others → CutsWithin parts.2 others) ∧
    (∀ kind module symbol, Token.IsIdentifier symbol → ¬RunsIntoLength module →
      name = mangle kind module symbol →
        ¬∃ stop, demangle name = .error (.outOfBounds stop)) ∧
    ∀ (registry : Registry) (view : Viewpoint),
      (Panics (registry.canonical name) ↔
        ∃ stop, demangle name = .error (.outOfBounds stop)) ∧
      (Panics (registry.entity? view name) ↔
        ∃ stop, demangle name = .error (.outOfBounds stop)) ∧
      (Panics (registry.signature? view name) ↔
        ∃ stop, demangle name = .error (.outOfBounds stop)) ∧
      (Panics (registry.function? view name) ↔
        ∃ stop, demangle name = .error (.outOfBounds stop)) := by
  refine ⟨⟨?_, ?_⟩, ?_, ?_, fun registry view => ⟨?_, ?_, ?_, ?_⟩⟩
  · rintro ⟨stop, cut⟩
    cases marked : afterMark? functionMark name.toList with
    | none => exact absurd cut (demangle_ne_outOfBounds marked stop)
    | some text =>
      have isMarked := toList_of_afterMark? marked
      exact ⟨text, isMarked, (demangle_function_outOfBounds_iff isMarked fits).mp ⟨stop, cut⟩⟩
  · rintro ⟨text, marked, overruns⟩
    exact (demangle_function_outOfBounds_iff marked fits).mpr overruns
  · intro text parts marked read
    rw [← byteCount_toList, marked, byteCount_append] at fits
    have cuts := (cutsWithin_of_readSized (by omega) read).2
    refine ⟨cuts, fun others readOn => (cutsWithin_of_readSized ?_ readOn).2⟩
    have ordered := cuts.ordered
    have second := cuts.second
    omega
  · rintro kind module symbol isIdentifier apart rfl
    exact demangle_mangle_within isIdentifier fits apart
  · exact panics_iff fun _ _ => canonical_eq_error_iff
  · exact panics_iff fun _ _ => lookup?_eq_error_iff
  · exact panics_iff fun _ _ => lookup?_eq_error_iff
  · exact panics_iff fun _ ends => function?_eq_error_iff (.inr ends)

/-- An id of 92 bytes: with its length in front it starts with the largest 64-bit number. -/
def numberedId : String := "23372036854775807" ++ String.ofList (List.replicate 75 'a')

/-- The function `f` of a module with that id has a name that is cut out of range, and looking it up
is a panic. -/
theorem numberedId_panics :
    (ofFunction numberedId "f").utf8ByteSize < lengthBound ∧
      (∃ stop, demangle (ofFunction numberedId "f") = .error (.outOfBounds stop)) ∧
      ∀ (registry : Registry) (view : Viewpoint),
        Panics (registry.function? view (ofFunction numberedId "f")) := by
  have fits : (ofFunction numberedId "f").utf8ByteSize < lengthBound := by decide
  obtain ⟨overruns, -, -, lookups⟩ := lookups_panic_iff _ fits
  have cut := overruns.mpr
    ⟨(ofFunction numberedId "f").toList.drop 2, by decide, .inl (by decide)⟩
  exact ⟨fits, cut, fun registry view => (lookups registry view).2.2.2.mpr cut⟩

end Kronk.Name
