import Kronk.Proofs.Consulted
import Kronk.Proofs.Lookups
import Kronk.Proofs.Written
import Kronk.Source.ExprReader

/-!
# Reading in two ways

A text is read in two ways side by side: with two registries that answer alike to the names of the
module, with two amounts of fuel, and with the tokens of two layouts.  Both ways lead to the same
result, and what was read mentions no other names.  The tokens end with the end of the text or with
a broken lexeme, and no reader passes over the end; so every few nested readers pass over a token,
and a fuel in proportion to the number of tokens is never used up.
-/

namespace Kronk.Source

variable {error : ReadError} {c : Char} {token : Token} {name : String}
  {surroundings : Surroundings}

/-! ## Settings -/

/-- A module seen with two registries that answer alike to certain names.  Among these are all
names of the module and of the modules that it includes. -/
structure Vantage where
  names : String → Prop
  file : String
  module : Module
  registry : Registry
  other : Registry
  agree : ∀ name, names name → Registry.AgreeOn name registry other
  canonical : ∀ name found, names name → registry.canonical name = .ok found → names found
  own : ∀ kind symbol, names (Name.mangle kind module.id symbol)
  foreign : ∀ kind localName symbol, module.hasDependency localName = true →
    names (Name.mangle kind (Name.includeId module.id localName) symbol)

namespace Vantage

def first (vantage : Vantage) : Surroundings := ⟨vantage.file, vantage.module, vantage.registry⟩

def second (vantage : Vantage) : Surroundings := ⟨vantage.file, vantage.module, vantage.other⟩

/-- A module seen with its own registry only. -/
def single (surroundings : Surroundings) : Vantage where
  names _ := True
  file := surroundings.file
  module := surroundings.module
  registry := surroundings.registry
  other := surroundings.registry
  agree _ _ := ⟨fun _ => rfl, rfl⟩
  canonical _ _ _ _ := trivial
  own _ _ := trivial
  foreign _ _ _ _ := trivial

end Vantage

/-- The same move where other tokens lie behind each token. -/
def Move.along (behind : Token → List Token → List Token) : Move → Move
  | .to token rest => .to token (behind token rest)
  | .exhausted => .exhausted
  | .brokenContinuation token => .brokenContinuation token

/-- Which tokens lie behind a token in another layout of the text.  Moving on from a token leads to
the same one; from a new line only if new lines are skipped. -/
structure Layout where
  behind : Token → List Token → List Token
  moves : ∀ skipping token rest, (token.lexeme = .newLine → skipping = true) →
    nextToken skipping (behind token rest) = (nextToken skipping rest).along behind

namespace Layout

def plain : Layout where
  behind _ rest := rest
  moves skipping _ rest _ := by cases nextToken skipping rest <;> rfl

variable (layout : Layout)

def view (reading : Reading) : Reading :=
  { reading with rest := layout.behind reading.current reading.rest }

def outcome {α : Type} : EStateM.Result Failure Reading α → EStateM.Result Failure Reading α
  | .ok value final => .ok value (layout.view final)
  | .error failure final => .error failure (layout.view final)

@[simp] theorem outcome_plain {α : Type} (result : EStateM.Result Failure Reading α) :
    plain.outcome result = result := by
  cases result <;> rfl

end Layout

/-- Two ways of reading.  If it is `bounded`, the tokens come to an end and the fuels are enough for
them, else the fuels are the same; if it is `worded`, identifiers are words and the signatures that
are found are added to the `known` ones. -/
structure Setting where
  vantage : Vantage
  layout : Layout := .plain
  bounded : Prop := False
  worded : Prop := False
  known : Table (List String) := {}

namespace Setting

variable (setting : Setting)

/-- The names to which both registries answer alike. -/
abbrev names : String → Prop := setting.vantage.names

/-- Two fuels for the same reader, of which so much is needed. -/
def Covers (need fuel other : Nat) : Prop :=
  ¬setting.bounded ∧ fuel = other ∨ setting.bounded ∧ need ≤ fuel ∧ need ≤ other

/-- A reading on the way: certain entities were found, and at most `count` tokens are left. -/
structure Holds (definitions : List EntityDefinition) (count : Nat) (reading : Reading) : Prop where
  recorded : setting.worded → Recorded setting.known definitions reading
  within : setting.bounded → reading.Within count

/-- A reading after a token was passed over. -/
def Passed (definitions : List EntityDefinition) (count : Nat) (reading : Reading) : Prop :=
  ∃ fewer, (setting.bounded → fewer < count) ∧ setting.Holds definitions fewer reading

/-- Success with `after`, or a failure that has its reason in the text or the registry. -/
def Reached {α : Type} (after : α → Reading → Prop) : EStateM.Result Failure Reading α → Prop
  | .ok value final => after value final
  | .error failure _ => setting.bounded → failure.HasReason setting.vantage.registry

/-- From every reading with `before`, one reader does with the one registry and layout what another
one does with the other, and they do not run out of fuel; where they succeed, `after` holds. -/
def Pairs {α : Type} (before : Reading → Prop) (one other : Reader α) (after : α → Reading → Prop) :
    Prop :=
  ∀ reading, before reading →
    other setting.vantage.second (setting.layout.view reading) =
        setting.layout.outcome (one setting.vantage.first reading) ∧
      setting.Reached after (one setting.vantage.first reading)

/-- Both readers read something of a kind with the tokens they have before them. -/
abbrev Reads {α : Type} (definitions : List EntityDefinition) (count : Nat) (one other : Reader α)
    (holds : α → Prop) : Prop :=
  setting.Pairs (setting.Holds definitions count) one other fun value reading =>
    setting.Holds definitions count reading ∧ holds value

/-- Both readers pass over a token at least and read something of a kind. -/
abbrev Takes {α : Type} (definitions : List EntityDefinition) (count : Nat) (one other : Reader α)
    (holds : α → Prop) : Prop :=
  setting.Pairs (setting.Holds definitions count) one other fun value reading =>
    setting.Passed definitions count reading ∧ holds value

/-- A reading on the way that stands at a character. -/
abbrev At (c : Char) (definitions : List EntityDefinition) (count : Nat) (reading : Reading) :
    Prop :=
  setting.Holds definitions count reading ∧ reading.current.isChar c = true

/-- Both readers read up to a closing character. -/
abbrev ReadsTo {α : Type} (closing : Char) (definitions : List EntityDefinition) (count : Nat)
    (one other : Reader α) (holds : α → Prop) : Prop :=
  setting.Pairs (setting.Holds definitions count) one other fun value reading =>
    setting.At closing definitions count reading ∧ holds value

/-- Both readers read from an opening character on. -/
abbrev ReadsFrom {α : Type} (opening : Char) (definitions : List EntityDefinition) (count : Nat)
    (one other : Reader α) (holds : α → Prop) : Prop :=
  setting.Pairs (setting.At opening definitions count) one other fun value reading =>
    setting.Holds definitions count reading ∧ holds value

variable {setting} {definitions : List EntityDefinition} {need fuel other count : Nat}
  {reading : Reading}

namespace Covers

variable {smaller left : Nat}

theorem later (covers : setting.Covers need fuel other)
    (isFewer : setting.bounded → left < count) (isLess : left < count → smaller ≤ need) :
    setting.Covers smaller fuel other := by
  rcases covers with same | ⟨bounded, enough, otherEnough⟩
  · exact .inl same
  · have := isLess (isFewer bounded)
    exact .inr ⟨bounded, by omega, by omega⟩

theorem mono (covers : setting.Covers need fuel other) (isLess : smaller ≤ need) :
    setting.Covers smaller fuel other :=
  covers.later (fun _ => Nat.lt_succ_self 0) fun _ => isLess

theorem fewer (covers : setting.Covers need (fuel + 1) (other + 1))
    (isFewer : setting.bounded → left < count) (isLess : left < count → smaller < need) :
    setting.Covers smaller fuel other := by
  rcases covers.later isFewer isLess with ⟨free, same⟩ | ⟨bounded, enough, otherEnough⟩
  · exact .inl ⟨free, Nat.succ.inj same⟩
  · exact .inr ⟨bounded, Nat.le_of_lt_succ enough, Nat.le_of_lt_succ otherEnough⟩

theorem less (covers : setting.Covers need (fuel + 1) (other + 1)) (isLess : smaller < need) :
    setting.Covers smaller fuel other :=
  covers.fewer (fun _ => Nat.lt_succ_self 0) fun _ => isLess

theorem exists_succ (covers : setting.Covers need (fuel + 1) other) (positive : 0 < need) :
    ∃ less, other = less + 1 := by
  rcases covers with ⟨_, rfl⟩ | ⟨_, _, enough⟩
  · exact ⟨fuel, rfl⟩
  · exact Nat.exists_eq_add_one.mpr (Nat.lt_of_lt_of_le positive enough)

theorem zero (covers : setting.Covers need 0 other) (positive : 0 < need) :
    ¬setting.bounded ∧ other = 0 := by
  rcases covers with ⟨free, rfl⟩ | ⟨_, enough, _⟩
  · exact ⟨free, rfl⟩
  · omega

end Covers

theorem Holds.mono {fewer : Nat} (holds : setting.Holds definitions fewer reading)
    (less : setting.bounded → fewer ≤ count) : setting.Holds definitions count reading :=
  ⟨holds.recorded, fun bounded => (holds.within bounded).mono (less bounded)⟩

theorem Holds.trace (holds : setting.Holds definitions count reading) (messages : List String) :
    setting.Holds definitions count { reading with trace := messages } :=
  ⟨fun worded => (holds.recorded worded).trace messages,
    fun bounded => ⟨(holds.within bounded).closed, (holds.within bounded).length_le⟩⟩

theorem Passed.holds (passed : setting.Passed definitions count reading) :
    setting.Holds definitions count reading := by
  obtain ⟨fewer, less, holds⟩ := passed
  exact holds.mono fun bounded => Nat.le_of_lt (less bounded)

theorem Passed.trace (passed : setting.Passed definitions count reading) (messages : List String) :
    setting.Passed definitions count { reading with trace := messages } := by
  obtain ⟨fewer, less, holds⟩ := passed
  exact ⟨fewer, less, holds.trace messages⟩

namespace Pairs

variable {α β : Type} {before : Reading → Prop} {after : β → Reading → Prop}

theorem pure {value : β} (holds : ∀ reading, before reading → after value reading) :
    setting.Pairs before (pure value) (pure value) after :=
  fun reading start => ⟨rfl, holds reading start⟩

theorem cutOff (free : ¬setting.bounded) : setting.Pairs before Reader.cutOff Reader.cutOff after :=
  fun _ _ => ⟨rfl, fun bounded => absurd bounded free⟩

theorem fail : setting.Pairs before (Reader.fail error) (Reader.fail error) after :=
  fun _ _ => ⟨rfl, fun _ => .atLine⟩

/-- Both readers take the same answer of a registry. -/
theorem ask {answer : Except Failure β}
    (reason : ∀ failure, answer = .error failure → failure.HasReason setting.vantage.registry) :
    setting.Pairs before (Reader.ask answer) (Reader.ask answer) fun value reading =>
      before reading ∧ answer = .ok value := by
  cases answer with
  | ok value => exact pure fun _ holds => ⟨holds, rfl⟩
  | error failure => exact fun _ _ => ⟨rfl, fun _ => reason failure rfl⟩

variable {next following : α → Reader β} {one another : Reader β} {condition : Prop}

theorem bind {one another : Reader α} {middle : α → Reading → Prop}
    (starts : setting.Pairs before one another middle)
    (continues : ∀ value, setting.Pairs (middle value) (next value) (following value) after) :
    setting.Pairs before (one >>= next) (another >>= following) after := by
  intro reading holds
  obtain ⟨same, reached⟩ := starts reading holds
  change EStateM.bind (another _) (fun value => following value _) _ =
      setting.layout.outcome (EStateM.bind (one _) (fun value => next value _) reading) ∧
    setting.Reached after (EStateM.bind (one _) (fun value => next value _) reading)
  unfold EStateM.bind
  rw [same]
  cases outcome : one setting.vantage.first reading with
  | ok value final =>
    rw [outcome] at reached
    exact continues value final reached
  | error failure final =>
    rw [outcome] at reached
    exact ⟨rfl, reached⟩

theorem weaken {stronger : Reading → Prop} {result : β → Reading → Prop}
    (pairs : setting.Pairs before one another after)
    (start : ∀ reading, stronger reading → before reading)
    (success : ∀ value reading, after value reading → result value reading) :
    setting.Pairs stronger one another result := by
  intro reading holds
  obtain ⟨same, reached⟩ := pairs reading (start reading holds)
  refine ⟨same, ?_⟩
  cases outcome : one setting.vantage.first reading with
  | ok value final =>
    rw [outcome] at reached
    exact success value final reached
  | error failure final =>
    rw [outcome] at reached
    exact reached

theorem starting {stronger : Reading → Prop} (pairs : setting.Pairs before one another after)
    (start : ∀ reading, stronger reading → before reading) :
    setting.Pairs stronger one another after :=
  fun reading holds => pairs reading (start reading holds)

theorem deduce {fact : Prop} {weaker : Reading → Prop}
    (holds : ∀ reading, before reading → weaker reading ∧ fact)
    (pairs : fact → setting.Pairs weaker one another after) :
    setting.Pairs before one another after :=
  fun reading start => pairs (holds reading start).2 reading (holds reading start).1

/-- What is known of the reading on the way may be used. -/
theorem given {fact : Prop} (pairs : fact → setting.Pairs before one another after) :
    setting.Pairs (fun reading => before reading ∧ fact) one another after :=
  deduce (fun _ holds => holds) pairs

/-- After a token was passed over there are fewer tokens. -/
theorem pass {found : β → List EntityDefinition} {shows : β → Reading → Prop}
    (pairs : ∀ fewer, (setting.bounded → fewer < count) →
      setting.Pairs (setting.Holds definitions fewer) one another fun value reading =>
        setting.Holds (found value) fewer reading ∧ shows value reading) :
    setting.Pairs (setting.Passed definitions count) one another fun value reading =>
      setting.Passed (found value) count reading ∧ shows value reading := by
  rintro reading ⟨fewer, less, holds⟩
  refine (pairs fewer less).weaken (fun _ holds => holds) ?_ reading holds
  exact fun _ _ reached => ⟨⟨fewer, less, reached.1⟩, reached.2⟩

theorem kept {found : β → List EntityDefinition} {shows : β → Reading → Prop}
    (pairs : setting.Pairs before one another fun value reading =>
      setting.Passed (found value) count reading ∧ shows value reading) :
    setting.Pairs before one another fun value reading =>
      setting.Holds (found value) count reading ∧ shows value reading :=
  pairs.weaken (fun _ holds => holds) fun _ _ reached => ⟨reached.1.holds, reached.2⟩

theorem passTo {found : β → List EntityDefinition} {holds : β → Prop}
    (pairs : ∀ fewer, (setting.bounded → fewer < count) →
      setting.Pairs (setting.Holds definitions fewer) one another fun value reading =>
        setting.At c (found value) fewer reading ∧ holds value) :
    setting.Pairs (setting.Passed definitions count) one another fun value reading =>
      setting.At c (found value) count reading ∧ holds value := by
  rintro reading ⟨fewer, less, start⟩
  refine (pairs fewer less).weaken (fun _ holds => holds) ?_ reading start
  exact fun _ _ reached => ⟨⟨reached.1.1.mono fun bounded => Nat.le_of_lt (less bounded),
    reached.1.2⟩,
    reached.2⟩

theorem map {one another : Reader α} {change : α → β} {holds : β → Prop} {middle : Reading → Prop}
    (pairs : setting.Pairs before one another fun value reading =>
      middle reading ∧ holds (change value)) :
    setting.Pairs before (change <$> one) (change <$> another) fun value reading =>
      middle reading ∧ holds value := by
  rw [← bind_pure_comp, ← bind_pure_comp]
  exact pairs.bind fun _ => .pure fun _ holds => holds

theorem read {next following : Surroundings → Reader β}
    (later : setting.Pairs before (next setting.vantage.first) (following setting.vantage.second)
      after) :
    setting.Pairs before (MonadReader.read >>= next) (MonadReader.read >>= following) after :=
  later

theorem get {next following : Reading → Reader β}
    (later : ∀ reading, setting.Pairs (fun current => before current ∧ current = reading)
      (next reading) (following (setting.layout.view reading)) after) :
    setting.Pairs before (MonadState.get >>= next) (MonadState.get >>= following) after :=
  fun reading holds => later reading reading ⟨holds, rfl⟩

theorem ite [Decidable condition] {later afterwards : Reader β}
    (holds : condition → setting.Pairs before one another after)
    (fails : ¬condition → setting.Pairs before later afterwards after) :
    setting.Pairs before (if condition then one else later)
      (if condition then another else afterwards) after := by
  split
  · exact holds ‹_›
  · exact fails ‹_›

/-- A choice between two readers in the middle of a third. -/
theorem branch [Decidable condition] {one another later afterwards : Reader α}
    {middle : α → Reading → Prop} (holds : setting.Pairs before one another middle)
    (fails : setting.Pairs before later afterwards middle)
    (continues : ∀ value, setting.Pairs (middle value) (next value) (following value) after) :
    setting.Pairs before (if condition then one >>= next else later >>= next)
      (if condition then another >>= following else afterwards >>= following) after :=
  .ite (fun _ => holds.bind continues) fun _ => fails.bind continues

theorem guard [Decidable condition] (pairs : ¬condition → setting.Pairs before one another after) :
    setting.Pairs before
      (do
        if condition then Reader.fail error
        one)
      (do
        if condition then Reader.fail error
        another) after :=
  .ite (fun _ _ _ => ⟨rfl, fun _ => .atLine⟩) pairs

/-! ## Tokens -/

theorem current : setting.Pairs before Reader.current Reader.current fun token reading =>
      before reading ∧ reading.current = token :=
  fun _ holds => ⟨rfl, holds, rfl⟩

theorem line : setting.Pairs before Reader.line Reader.line fun _ => before :=
  fun _ holds => ⟨rfl, holds⟩

theorem atChar (c : Char) :
    setting.Pairs before (Reader.atChar c) (Reader.atChar c) fun here reading =>
      before reading ∧ reading.current.isChar c = here :=
  fun _ holds => ⟨rfl, holds, rfl⟩

theorem ifChar {later afterwards : Reader β}
    (here : setting.Pairs (fun reading => before reading ∧ reading.current.isChar c = true) one
      another after) (elsewhere : setting.Pairs before later afterwards after) :
    setting.Pairs before (do if ← Reader.atChar c then one else later)
      (do if ← Reader.atChar c then another else afterwards) after := by
  refine (atChar c).bind fun isHere => ?_
  cases isHere with
  | true => exact here
  | false => exact elsewhere.starting fun _ holds => holds.1

theorem noChar (pairs : setting.Pairs before one another after) :
    setting.Pairs before
      (do
        if ← Reader.atChar c then Reader.fail error
        one)
      (do
        if ← Reader.atChar c then Reader.fail error
        another) after :=
  (atChar c).bind fun _ => .guard fun _ =>
    pairs.starting fun _ holds => holds.1

theorem operator? : setting.Pairs before Reader.operator? Reader.operator? fun found reading =>
      before reading ∧ (found.isSome = true → reading.current.IsSolid) := by
  refine current.bind fun token => ?_
  split
  · rename_i spelling named
    refine pure fun reading holds => ⟨holds.1, fun _ => ?_⟩
    rw [holds.2]
    simp [Token.IsSolid, Token.isEnd, named]
  · exact pure fun reading holds => ⟨holds.1, fun found => by cases found⟩

theorem bindsTighter (precedence : Nat) :
    setting.Pairs before (Reader.bindsTighter precedence) (Reader.bindsTighter precedence)
      fun _ => before :=
  operator?.bind fun _ => pure fun _ holds => holds.1

theorem bindsEqually (precedence : Nat) :
    setting.Pairs before (Reader.bindsEqually precedence) (Reader.bindsEqually precedence)
      fun _ => before :=
  operator?.bind fun _ => pure fun _ holds => holds.1

theorem moved {rest : List Token} {skipping : Bool}
    (holds : setting.Holds definitions count reading)
    (moved : nextToken skipping reading.rest = .to token rest) :
    setting.Passed definitions count { reading with current := token, rest := rest } := by
  obtain ⟨passed, split⟩ := nextToken_suffix moved
  refine ⟨rest.length, fun bounded => ?_, fun worded => (holds.recorded worded).move split, ?_⟩
  · have shorter := (holds.within bounded).length_le
    rw [split, List.length_append, List.length_cons] at shorter
    omega
  · refine fun bounded => ⟨?_, Nat.le_refl _⟩
    rcases (holds.within bounded).closed with broken | ⟨last, isLast, isEnd⟩
    · exact .inl broken
    · refine .inr ⟨last, ?_, isEnd⟩
      rw [split, ← List.cons_append, List.getLast?_append] at isLast
      simpa using isLast

/-- Where there is nowhere to move, the reading stands at the end of the text. -/
theorem isEnd_of_exhausted {skipping : Bool} (closed : reading.Closed)
    (unbroken : reading.failure = none)
    (exhausted : nextToken skipping reading.rest = .exhausted) : reading.current.isEnd = true := by
  rcases closed with broken | ⟨last, isLast, isEnd⟩
  · simp [unbroken] at broken
  · cases tokens : reading.rest with
    | nil =>
      rw [tokens] at isLast
      cases isLast
      exact isEnd
    | cons token rest =>
      rw [tokens, List.getLast?_cons_cons, ← tokens] at isLast
      simp [nextToken_exhausted exhausted isLast] at isEnd

theorem move (skipping : Bool) :
    setting.Pairs (fun reading => setting.Holds definitions count reading ∧
        (reading.current.lexeme = .newLine → skipping = true))
      (Reader.move skipping) (Reader.move skipping) fun _ => setting.Holds definitions count := by
  rintro ⟨token, tokens, failure, signatures, trace⟩ ⟨holds, free⟩
  rw [Reader.move_eq, Reader.move_eq]
  simp only [Layout.view, setting.layout.moves skipping token tokens free]
  rcases found : nextToken skipping tokens with ⟨token, rest⟩ | _ | token
  · exact ⟨rfl, (moved holds found).holds⟩
  · cases failure with
    | some problem => exact ⟨rfl, fun _ => .atLine⟩
    | none => exact ⟨rfl, holds⟩
  · exact ⟨rfl, fun _ => .atLine⟩

/-- Moving on from a token that is not the end of the text passes over it. -/
theorem passes (skipping : Bool)
    (leaves : ∀ reading, before reading → setting.Holds definitions count reading ∧
      reading.current.isEnd = false ∧ (reading.current.lexeme = .newLine → skipping = true)) :
    setting.Pairs before (Reader.move skipping) (Reader.move skipping) fun _ =>
      setting.Passed definitions count := by
  intro reading start
  obtain ⟨holds, notEnd, free⟩ := leaves reading start
  refine ⟨(move skipping reading ⟨holds, free⟩).1, ?_⟩
  rw [Reader.move_eq]
  rcases found : nextToken skipping reading.rest with ⟨token, rest⟩ | _ | token
  · exact moved holds found
  · cases unbroken : reading.failure with
    | some problem => exact fun _ => .atLine
    | none =>
      refine ⟨count, fun bounded => ?_, holds⟩
      simp [isEnd_of_exhausted (holds.within bounded).closed unbroken found] at notEnd
  · exact fun _ => .atLine

theorem nextSolid (solid : ∀ reading, before reading →
      setting.Holds definitions count reading ∧ reading.current.IsSolid) :
    setting.Pairs before Reader.next Reader.next fun _ => setting.Passed definitions count :=
  passes false fun reading start =>
    ⟨(solid reading start).1, (solid reading start).2.1, fun isLine =>
      absurd isLine (solid reading start).2.2⟩

theorem isSolid_of_isChar (here : token.isChar c = true) : token.IsSolid := by
  have named : token.lexeme = .char c := by simpa [Token.isChar] using here
  simp [Token.IsSolid, Token.isEnd, named]

theorem nextChar : setting.Pairs (setting.At c definitions count) Reader.next Reader.next
      fun _ => setting.Passed definitions count :=
  nextSolid fun _ holds => ⟨holds.1, isSolid_of_isChar holds.2⟩

theorem nextAt (solid : token.IsSolid) :
    setting.Pairs (fun reading => setting.Holds definitions count reading ∧ reading.current = token)
      Reader.next Reader.next fun _ => setting.Passed definitions count :=
  nextSolid fun _ holds => ⟨holds.1, holds.2 ▸ solid⟩

theorem closing (later : setting.Pairs (setting.Holds definitions count) one another after) :
    setting.Pairs (setting.At c definitions count)
      (Reader.next >>= fun _ => one) (Reader.next >>= fun _ => another) after :=
  nextChar.bind fun _ => later.starting fun _ passed => passed.holds

theorem closingAt (solid : token.IsSolid)
    (later : setting.Pairs (setting.Holds definitions count) one another after) :
    setting.Pairs (fun reading => setting.Holds definitions count reading ∧ reading.current = token)
      (Reader.next >>= fun _ => one) (Reader.next >>= fun _ => another) after :=
  (nextAt solid).bind fun _ => later.starting fun _ passed => passed.holds

theorem behindChar {found : β → List EntityDefinition} {shows : β → Reading → Prop}
    (pairs : ∀ fewer, (setting.bounded → fewer < count) →
      setting.Pairs (setting.Holds definitions fewer) one another fun value reading =>
        setting.Holds (found value) fewer reading ∧ shows value reading) :
    setting.Pairs (setting.At c definitions count)
      (Reader.next >>= fun _ => one) (Reader.next >>= fun _ => another) fun value reading =>
        setting.Passed (found value) count reading ∧ shows value reading :=
  nextChar.bind fun _ => .pass pairs

theorem passChar (c : Char) (error : ReadError) :
    setting.Pairs (setting.Holds definitions count) (Reader.passChar c error)
      (Reader.passChar c error) fun _ => setting.Passed definitions count :=
  .ifChar nextChar .fail

theorem overChar (c : Char) (error : ReadError) :
    setting.Pairs (setting.Holds definitions count) (Reader.passChar c error)
      (Reader.passChar c error) fun _ => setting.Holds definitions count :=
  (passChar c error).weaken (fun _ holds => holds) fun _ _ passed => passed.holds

theorem identifier (error : ReadError) :
    setting.Pairs (setting.Holds definitions count) (Reader.identifier error)
      (Reader.identifier error) fun name reading =>
        setting.Passed definitions count reading ∧ (setting.worded → IsWord name) := by
  refine current.bind fun token => ?_
  split
  · rename_i name named
    have isWord : ∀ reading,
        setting.Holds definitions count reading ∧ reading.current = token →
          setting.worded → IsWord name := by
      rintro reading ⟨holds, rfl⟩ worded
      exact (holds.recorded worded).worded _ List.mem_cons_self name named
    refine .deduce (fun reading holds => ⟨holds, isWord reading holds⟩) fun isWord => ?_
    refine (nextAt (by simp [Token.IsSolid, Token.isEnd, named])).bind fun _ => ?_
    exact .pure fun _ passed => ⟨passed, isWord⟩
  · exact .fail

theorem signature? (known : setting.names name) :
    setting.Pairs before (Reader.signature? name) (Reader.signature? name) fun _ => before := by
  intro reading holds
  let view : Viewpoint :=
    ⟨{ setting.vantage.module with signatures := reading.signatures }, false⟩
  have answers : setting.Pairs before (Reader.ask (setting.vantage.registry.signature? view name))
      (Reader.ask (setting.vantage.registry.signature? view name)) fun _ => before :=
    (ask fun _ fails => (Registry.lookup?_eq_error_iff.mp fails).hasReason).weaken
      (fun _ holds => holds) fun _ _ reached => reached.1
  change Reader.ask (setting.vantage.other.signature? view name) _ _ = _ ∧ _
  rw [← (setting.vantage.agree name known).signature view]
  exact answers reading holds

theorem canonical (known : setting.names name) :
    setting.Pairs before (Reader.canonical name) (Reader.canonical name) fun found reading =>
      before reading ∧ setting.names found := by
  refine .read ?_
  dsimp only [Vantage.first, Vantage.second]
  rw [← (setting.vantage.agree name known).canonical]
  refine (ask fun _ fails => (Registry.canonical_eq_error_iff.mp fails).hasReason).weaken
    (fun _ holds => holds) fun found _ reached => ⟨reached.1, ?_⟩
  exact setting.vantage.canonical name found known reached.2

/-- A symbol is read behind an alias of the module only. -/
theorem foreignSymbol (localName : String) :
    setting.Pairs (fun reading => setting.Holds definitions count reading ∧
        reading.current.lexeme = .scope) (Reader.foreignSymbol localName)
      (Reader.foreignSymbol localName) fun _ reading => setting.Passed definitions count reading ∧
          setting.vantage.module.hasDependency localName = true := by
  refine .read (.guard fun included => ?_)
  have isSolid : ∀ reading,
      setting.Holds definitions count reading ∧ reading.current.lexeme = .scope →
        setting.Holds definitions count reading ∧ reading.current.IsSolid :=
    fun reading holds => ⟨holds.1, by simp [Token.IsSolid, Token.isEnd, holds.2]⟩
  refine (nextSolid isSolid).bind fun _ => .pass fun fewer _ => ?_
  refine (identifier _).weaken (fun _ holds => holds) fun _ _ reached => ⟨reached.1.holds, ?_⟩
  simpa [Vantage.first] using included

/-- The name of an entity in an included module is known, and so is what it stands for. -/
theorem foreign {symbol : String} (included : setting.vantage.module.hasDependency name = true) :
    setting.names (Name.ofForeignType setting.vantage.module.id name symbol) :=
  setting.vantage.foreign .type name symbol included

theorem typeName (defining : Option String) (covers : setting.Covers (count + 1) fuel other) :
    setting.Reads definitions count (Reader.typeName defining fuel)
      (Reader.typeName defining other) (TypeName.Consults setting.names) := by
  induction fuel generalizing other count with
  | zero =>
    obtain ⟨free, rfl⟩ := covers.zero (Nat.succ_pos _)
    exact .cutOff free
  | succ fuel ih =>
    obtain ⟨other, rfl⟩ := covers.exists_succ (Nat.succ_pos _)
    refine .kept ((identifier _).bind fun name => .given fun _ => .pass fun fewer less => ?_)
    refine .ite (fun _ => (overChar _ _).bind fun _ => ?_) fun _ => ?_
    · refine .bind (ih (covers.fewer less (by omega))) fun _ => .given fun known => ?_
      exact (overChar _ _).bind fun _ => .pure fun _ holds => ⟨holds, known⟩
    · split
      · exact .pure fun _ holds => ⟨holds, trivial⟩
      · refine .read (current.bind fun token => .ite (fun isScope => ?_) fun _ => ?_)
        · refine .bind ((foreignSymbol name).starting fun _ holds => ⟨holds.1, holds.2 ▸ isScope⟩)
            fun symbol => .given fun included => ?_
          refine (signature? (foreign included)).bind fun found => .ite (fun _ => ?_) fun _ => .fail
          refine (canonical (foreign included)).bind fun found => ?_
          exact .pure fun _ reached => ⟨reached.1.holds, reached.2⟩
        · refine .get fun reading => .ite (fun _ => ?_) fun _ => .fail
          exact .pure fun _ holds => ⟨holds.1.1, setting.vantage.own .type name⟩

theorem join {left right : Expr} (line : Nat) (operator : Operator)
    (knownLeft : left.Consults setting.names) (knownRight : right.Consults setting.names) :
    setting.Pairs before (Reader.join line operator left right)
      (Reader.join line operator left right) fun joined reading =>
        before reading ∧ joined.Consults setting.names := by
  refine .ite (fun _ => .ite (fun _ => ?_) fun _ => .fail) fun _ => ?_
  · exact .pure fun _ holds => ⟨holds, knownLeft, knownRight⟩
  · exact .pure fun _ holds => ⟨holds, knownLeft, knownRight⟩

end Pairs

/-! ## Expressions -/

/-- The readers of expressions, with two fuels that are enough for the tokens they have before them,
read alike. -/
structure Expressions (setting : Setting) (fuel other : Nat) : Prop where
  expr : ∀ {definitions count}, setting.Covers (6 * count + 3) fuel other →
    setting.Takes definitions count (Reader.expr fuel) (Reader.expr other)
      (Expr.Consults setting.names)
  binary : ∀ {definitions count left} minimum, left.Consults setting.names →
    setting.Covers (6 * count + 2) fuel other →
    setting.Reads definitions count (Reader.binary fuel minimum left)
      (Reader.binary other minimum left) (Expr.Consults setting.names)
  primary : ∀ {definitions count}, setting.Covers (6 * count + 1) fuel other →
    setting.Takes definitions count (Reader.primary fuel) (Reader.primary other)
      (Expr.Consults setting.names)
  named : ∀ {definitions count} line name, setting.Covers (6 * count + 6) fuel other →
    setting.Reads definitions count (Reader.named fuel line name) (Reader.named other line name)
      (Expr.Consults setting.names)
  call : ∀ {definitions count callee} line, setting.names callee →
    setting.Covers (6 * count + 5) fuel other →
    setting.ReadsFrom '(' definitions count (Reader.call fuel line callee)
      (Reader.call other line callee) (Expr.Consults setting.names)
  arguments : ∀ {definitions count}, setting.Covers (6 * count + 4) fuel other →
    setting.ReadsTo ')' definitions count (Reader.arguments fuel) (Reader.arguments other)
      (consultsAll setting.names)
  elements : ∀ {definitions count} position, setting.Covers (6 * count + 4) fuel other →
    setting.ReadsTo ']' definitions count (Reader.elements fuel position)
      (Reader.elements other position) (consultsAll setting.names)
  entity : ∀ {definitions count name} line symbol, setting.names name →
    setting.Covers (6 * count + 1) fuel other →
    setting.Reads definitions count (Reader.entity fuel line name symbol)
      (Reader.entity other line name symbol) (Expr.Consults setting.names)
  fieldValues : ∀ {definitions count fields} symbol signature position,
    consultsOptions setting.names fields → setting.Covers (6 * count + 1) fuel other →
    setting.ReadsTo ')' definitions count (Reader.fieldValues fuel symbol signature position fields)
      (Reader.fieldValues other symbol signature position fields) (consultsOptions setting.names)
  access : ∀ {definitions count target}, target.Consults setting.names →
    setting.Covers (6 * count + 1) fuel other →
    setting.Reads definitions count (Reader.access fuel target) (Reader.access other target)
      (Expr.Consults setting.names)
  listAccess : ∀ {definitions count list} line, list.Consults setting.names →
    setting.Covers (6 * count + 5) fuel other →
    setting.Reads definitions count (Reader.listAccess fuel line list)
      (Reader.listAccess other line list) (Expr.Consults setting.names)
  sliceEnd : ∀ {definitions count list start} line, list.Consults setting.names →
    consultsOption setting.names start → setting.Covers (6 * count + 4) fuel other →
    setting.ReadsFrom ':' definitions count (Reader.sliceEnd fuel line list start)
      (Reader.sliceEnd other line list start) (Expr.Consults setting.names)

namespace Expressions

open Pairs

section

variable (smaller : setting.Expressions fuel other)

include smaller

theorem binary_succ {left : Expr} (minimum : Nat) (knownLeft : left.Consults setting.names)
    (covers : setting.Covers (6 * count + 2) (fuel + 1) (other + 1)) :
    setting.Reads definitions count (Reader.binary (fuel + 1) minimum left)
      (Reader.binary (other + 1) minimum left) (Expr.Consults setting.names) := by
  rw [Reader.binary, Reader.binary]
  refine .bind (smaller.access knownLeft (covers.less (by omega))) fun left =>
    .given fun knownLeft => operator?.bind fun found => ?_
  cases found with
  | none => exact .pure fun _ holds => ⟨holds.1, knownLeft⟩
  | some operator =>
    refine .ite (fun _ => .pure fun _ holds => ⟨holds.1, knownLeft⟩) fun _ => ?_
    refine line.bind fun line => .kept ((nextSolid fun _ holds => ⟨holds.1, holds.2 rfl⟩).bind
      fun _ => .pass fun fewer less => ?_)
    have climbs : ∀ minimum {left : Expr}, left.Consults setting.names →
        setting.Reads definitions fewer (Reader.binary fuel minimum left)
          (Reader.binary other minimum left) (Expr.Consults setting.names) :=
      fun minimum _ known => smaller.binary minimum known (covers.fewer less (by omega))
    have joins : ∀ {right : Expr}, right.Consults setting.names →
        setting.Reads definitions fewer
          (do
            let joined ← Reader.join line operator left right
            Reader.binary fuel minimum joined)
          (do
            let joined ← Reader.join line operator left right
            Reader.binary other minimum joined) (Expr.Consults setting.names) :=
      fun known => (join line operator knownLeft known).bind fun _ => .given (climbs minimum)
    refine .bind (.kept (smaller.primary (covers.fewer less (by omega)))) fun operand =>
      .given fun known => ?_
    refine .bind (smaller.access known (covers.fewer less (by omega))) fun operand =>
      .given fun known => (bindsTighter operator.precedence).bind fun tighter => ?_
    refine .branch (climbs _ known) (.pure fun _ holds => ⟨holds, known⟩) fun right =>
      .given fun known => (bindsEqually operator.precedence).bind fun equally => ?_
    refine .ite (fun _ => .ite (fun _ => ?_) fun _ => .ite (fun _ => ?_) fun _ => joins known)
      fun _ => joins known
    · exact (climbs operator.precedence known).bind fun right => .given joins
    · refine (join line operator knownLeft known).bind fun first => .given fun knownFirst => ?_
      refine (climbs operator.precedence known).bind fun later => .given fun knownLater => ?_
      exact climbs minimum ⟨knownFirst, knownLater⟩

theorem primary_succ (covers : setting.Covers (6 * count + 1) (fuel + 1) (other + 1)) :
    setting.Takes definitions count (Reader.primary (fuel + 1)) (Reader.primary (other + 1))
      (Expr.Consults setting.names) := by
  rw [Reader.primary, Reader.primary]
  refine line.bind fun line => current.bind fun token => ?_
  have literal : ∀ {value : Expr}, token.IsSolid → value.Consults setting.names →
      setting.Pairs (fun reading => setting.Holds definitions count reading ∧
          reading.current = token) (do Reader.next; return value) (do Reader.next; return value)
        fun value reading =>
          setting.Passed definitions count reading ∧ value.Consults setting.names :=
    fun solid known => (nextAt solid).bind fun _ => .pure fun _ passed => ⟨passed, known⟩
  split
  · rename_i name named
    refine (nextAt (by simp [Token.IsSolid, Token.isEnd, named])).bind fun _ => .pass ?_
    exact fun fewer less => smaller.named line name (covers.fewer less (by omega))
  · rename_i named
    exact literal (by simp [Token.IsSolid, Token.isEnd, named]) trivial
  · rename_i named
    exact literal (by simp [Token.IsSolid, Token.isEnd, named]) trivial
  · rename_i named
    exact literal (by simp [Token.IsSolid, Token.isEnd, named]) trivial
  · rename_i spelling named
    split
    · refine .ite (fun _ => ?_) fun _ => .fail
      refine (nextAt (by simp [Token.IsSolid, Token.isEnd, named])).bind fun _ => .pass ?_
      intro fewer less
      refine .bind (.kept (smaller.primary (covers.fewer less (by omega)))) fun operand =>
        .given fun known => ?_
      refine .bind (smaller.access known (covers.fewer less (by omega))) fun operand =>
        .given fun known => ?_
      exact .pure fun _ holds => ⟨holds, known⟩
    · exact .fail
  · rename_i named
    refine (nextAt (by simp [Token.IsSolid, Token.isEnd, named])).bind fun _ => .pass ?_
    intro fewer less
    refine .bind (.kept (smaller.expr (covers.fewer less (by omega)))) fun inner =>
      .given fun known => ?_
    exact (overChar _ _).bind fun _ => .pure fun _ holds => ⟨holds, known⟩
  · rename_i named
    refine (nextAt (by simp [Token.IsSolid, Token.isEnd, named])).bind fun _ => .pass ?_
    intro fewer less
    refine .ifChar (.closing <| .pure fun _ holds => ⟨holds, trivial⟩) ?_
    refine .bind (smaller.elements 1 (covers.fewer less (by omega))) fun elements =>
      .given fun known => .closing <| .pure fun _ holds => ⟨holds, known⟩
  · exact .fail

theorem named_succ (line : Nat) (name : String)
    (covers : setting.Covers (6 * count + 6) (fuel + 1) (other + 1)) :
    setting.Reads definitions count (Reader.named (fuel + 1) line name)
      (Reader.named (other + 1) line name) (Expr.Consults setting.names) := by
  rw [Reader.named, Reader.named]
  have call : ∀ {callee : String} {one another : Reader Expr}, setting.names callee →
      setting.Reads definitions count one another (Expr.Consults setting.names) →
      setting.Reads definitions count
        (do if ← Reader.atChar '(' then Reader.call fuel line callee else one)
        (do if ← Reader.atChar '(' then Reader.call other line callee else another)
        (Expr.Consults setting.names) :=
    fun known elsewhere => .ifChar (smaller.call line known (covers.less (by omega))) elsewhere
  refine .read (current.bind fun token => .ite (fun isScope => ?_) fun _ => ?_)
  · refine .bind (.kept ((foreignSymbol name).starting fun _ holds =>
      ⟨holds.1, holds.2 ▸ isScope⟩)) fun symbol => .given fun included => ?_
    refine (signature? (foreign included)).bind fun found => .ite (fun _ => ?_) fun _ => ?_
    · refine (canonical (foreign included)).bind fun found => .given fun known => ?_
      exact smaller.entity line symbol known (covers.less (by omega))
    · exact call (setting.vantage.foreign .function name symbol included) .fail
  · refine .get fun reading => .starting (.ite (fun _ => ?_) fun _ => ?_) fun _ holds => holds.1.1
    · exact smaller.entity line name (setting.vantage.own .type name) (covers.less (by omega))
    · exact call (setting.vantage.own .function name) (.pure fun _ holds => ⟨holds, trivial⟩)

theorem entity_succ (line : Nat) (symbol : String)
    (known : setting.names name) (covers : setting.Covers (6 * count + 1) (fuel + 1) (other + 1)) :
    setting.Reads definitions count (Reader.entity (fuel + 1) line name symbol)
      (Reader.entity (other + 1) line name symbol) (Expr.Consults setting.names) := by
  rw [Reader.entity, Reader.entity]
  refine .kept ((passChar _ _).bind fun _ => .pass fun fewer less => ?_)
  refine (signature? known).bind fun found => ?_
  have unset := consultsOptions_unset setting.names (found.getD [])
  refine .ifChar (.closing <| .pure fun _ holds => ⟨holds, ⟨known, unset⟩⟩) ?_
  refine current.bind fun token => .starting ?_ fun _ holds => holds.1
  split
  · refine .bind (smaller.fieldValues symbol _ 1 unset (covers.fewer less (by omega)))
      fun fields => .given fun knownFields => .closing <| ?_
    exact .pure fun _ holds => ⟨holds, known, knownFields⟩
  · exact .fail

theorem fieldValues_succ {fields : List (Option Expr)}
    (symbol : String) (signature : List String) (position : Nat)
    (known : consultsOptions setting.names fields)
    (covers : setting.Covers (6 * count + 1) (fuel + 1) (other + 1)) :
    setting.ReadsTo ')' definitions count
      (Reader.fieldValues (fuel + 1) symbol signature position fields)
      (Reader.fieldValues (other + 1) symbol signature position fields)
      (consultsOptions setting.names) := by
  rw [Reader.fieldValues, Reader.fieldValues]
  refine (identifier _).bind fun field => .given fun _ => .passTo fun fewer less => ?_
  split
  · exact .fail
  · refine current.bind fun token => .guard fun isAssigned => ?_
    have solid : token.IsSolid := by
      have named : token.lexeme = .operator Operator.assign.spelling := by simpa using isAssigned
      simp [Token.IsSolid, Token.isEnd, named]
    refine .closingAt solid (.bind (.kept (smaller.expr (covers.fewer less (by omega))))
      fun value => .given fun knownValue => .guard fun _ => ?_)
    have knownFields := consultsOptions_set _ known knownValue
    refine .ifChar (.pure fun _ holds => ⟨holds, knownFields _⟩) ((overChar _ _).bind fun _ => ?_)
    refine .guard fun _ => ?_
    exact smaller.fieldValues symbol signature _ (knownFields _) (covers.fewer less (by omega))

/-- What the readers of expressions do with one more of both fuels. -/
theorem succ : setting.Expressions (fuel + 1) (other + 1) where
  expr covers := by
    rw [Reader.expr, Reader.expr]
    refine .bind (smaller.primary (covers.less (by omega))) fun left => .given fun known => ?_
    exact .pass fun fewer less => smaller.binary 0 known (covers.fewer less (by omega))
  binary := smaller.binary_succ
  primary := smaller.primary_succ
  named := smaller.named_succ
  call line known covers := by
    rw [Reader.call, Reader.call]
    refine .closing <| .ifChar (.closing <| .pure fun _ holds => ⟨holds, ⟨known, trivial⟩⟩) ?_
    refine .bind (smaller.arguments (covers.less (by omega))) fun arguments =>
      .given fun knownArguments => .closing <| ?_
    exact .pure fun _ holds => ⟨holds, known, knownArguments⟩
  arguments covers := by
    rw [Reader.arguments, Reader.arguments]
    refine .bind (smaller.expr (covers.less (by omega))) fun argument => .given fun known => ?_
    refine .passTo fun fewer less => .ifChar (.pure fun _ holds => ⟨holds, known, trivial⟩) ?_
    refine (overChar _ _).bind fun _ => ?_
    refine .bind (smaller.arguments (covers.fewer less (by omega))) fun rest =>
      .given fun knownRest => ?_
    exact .pure fun _ holds => ⟨holds, known, knownRest⟩
  elements position covers := by
    rw [Reader.elements, Reader.elements]
    refine .bind (smaller.expr (covers.less (by omega))) fun element => .given fun known => ?_
    refine .passTo fun fewer less => .ifChar (.pure fun _ holds => ⟨holds, known, trivial⟩) ?_
    refine (overChar _ _).bind fun _ => ?_
    refine .bind (smaller.elements _ (covers.fewer less (by omega))) fun rest =>
      .given fun knownRest => ?_
    exact .pure fun _ holds => ⟨holds, known, knownRest⟩
  entity := smaller.entity_succ
  fieldValues := smaller.fieldValues_succ
  access {_ count _} known covers := by
    rw [Reader.access, Reader.access]
    refine line.bind fun line => .ifChar (.kept (.behindChar fun fewer less => ?_)) ?_
    · refine .bind (smaller.listAccess line known (covers.fewer less (by omega))) fun _ =>
        .given fun known => ?_
      exact smaller.access known (covers.fewer less (by omega))
    · refine .ifChar (.kept (.behindChar fun fewer less => ?_))
        (.pure fun _ holds => ⟨holds, known⟩)
      refine (identifier _).bind fun field => .given fun _ => .kept (.pass fun least later => ?_)
      have isFewer : setting.bounded → least < count :=
        fun bounded => Nat.lt_trans (later bounded) (less bounded)
      exact smaller.access known (covers.fewer isFewer (by omega))
  listAccess line known covers := by
    rw [Reader.listAccess, Reader.listAccess]
    refine .noChar (.ifChar (smaller.sliceEnd line known trivial (covers.less (by omega))) ?_)
    refine .bind (.kept (smaller.expr (covers.less (by omega)))) fun start =>
      .given fun knownStart => ?_
    refine .ifChar (.closing <| .pure fun _ holds => ⟨holds, known, knownStart⟩) ?_
    refine .ifChar (smaller.sliceEnd line known knownStart (covers.less (by omega))) .fail
  sliceEnd {definitions count _ _} line known knownStart covers := by
    rw [Reader.sliceEnd, Reader.sliceEnd]
    refine .closing <| (atChar _).bind fun last => ?_
    have stops : setting.Reads definitions count (some <$> Reader.expr fuel)
        (some <$> Reader.expr other) (consultsOption setting.names) :=
      .map (.kept (smaller.expr (covers.less (by omega))))
    refine .starting (.branch (.pure fun _ holds => ⟨holds, trivial⟩) stops fun stop =>
      .given fun knownStop => ?_) fun _ holds => holds.1
    exact (overChar _ _).bind fun _ => .pure fun _ holds => ⟨holds, known, knownStart, knownStop⟩

end

end Expressions

theorem expressions (setting : Setting) (fuel other : Nat) : setting.Expressions fuel other := by
  induction fuel generalizing other with
  | zero =>
    constructor <;> intros <;> rename_i covers <;>
      obtain ⟨free, rfl⟩ := covers.zero (by omega) <;>
      simp only [Reader.expr, Reader.binary, Reader.primary, Reader.named, Reader.call,
        Reader.arguments, Reader.elements, Reader.entity, Reader.fieldValues, Reader.access,
        Reader.listAccess, Reader.sliceEnd] <;>
      exact .cutOff free
  | succ fuel ih =>
    cases other with
    | zero =>
      constructor <;> intros <;> rename_i covers <;>
        obtain ⟨_, impossible⟩ := covers.exists_succ (by omega) <;> cases impossible
    | succ other => exact (ih other).succ

/-! ## Some settings -/

/-- The same surroundings, with two fuels that are enough. -/
def steady (surroundings : Surroundings) : Setting where
  vantage := .single surroundings
  bounded := True

/-- The same surroundings, with the signatures that are found. -/
def recording (surroundings : Surroundings) (known : Table (List String)) : Setting where
  vantage := .single surroundings
  worded := True
  known := known

theorem Holds.start (worded : reading.Worded) :
    (recording surroundings reading.signatures).Holds [] count reading :=
  ⟨fun _ => .start worded, False.elim⟩

theorem Pairs.steady {α : Type} {one another : Reader α} {before : Reading → Prop}
    {after : α → Reading → Prop}
    (pairs : (Setting.steady surroundings).Pairs before one another after)
    (start : before reading) : another surroundings reading = one surroundings reading ∧
      (Setting.steady surroundings).Reached after (one surroundings reading) := by
  obtain ⟨same, reached⟩ := pairs reading start
  exact ⟨same.trans (Layout.outcome_plain _), reached⟩

end Setting

theorem Reading.Within.holds {reading : Reading} {count : Nat} (within : reading.Within count) :
    (Setting.steady surroundings).Holds [] count reading :=
  ⟨False.elim, fun _ => within⟩

/-! ## The start of a text -/

def Reading.unread (scan : Scan) (signatures : Table (List String)) : Reading :=
  ⟨⟨.endOfFile, 1⟩, scan.tokens, scan.failure, signatures, []⟩

theorem Reading.start_eq (surroundings : Surroundings) (scan : Scan)
    (signatures : Table (List String)) : Reading.start surroundings scan signatures =
      Reader.move false surroundings (Reading.unread scan signatures) :=
  rfl

theorem Reading.start_worded {scan : Scan} {signatures : Table (List String)} {after : Reading}
    (worded : ∀ token ∈ scan.tokens, token.IsWorded)
    (found : Reading.start surroundings scan signatures = .ok () after) : after.Worded := by
  have begin : (Reading.unread scan signatures).Worded := by
    intro token member
    rcases List.mem_cons.mp member with rfl | scanned
    · exact fun name identified => by cases identified
    · exact worded token scanned
  have holds : (Setting.recording surroundings signatures).Holds [] 0 _ := Setting.Holds.start begin
  have reached := (Setting.Pairs.move false _ ⟨holds, fun isLine => by cases isLine⟩).2
  change Setting.Reached _ _ (Reading.start surroundings scan signatures) at reached
  rw [found] at reached
  exact (reached.recorded trivial).worded

end Kronk.Source
