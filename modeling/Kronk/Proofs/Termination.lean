import Kronk.Proofs.Demangling
import Kronk.Proofs.StatementReading
import Kronk.Source.Program

/-!
# Reading comes to an end

The tokens of a text end with the end of the text or with a broken lexeme, and no reader passes over
the end.  A bounded number of nested readers passes over a token, so every reader comes to an end;
every statement takes a token, so there is an end to the statements of a text as well.  The one
exception is a name that is looked up along a chain of duplicates that never ends.
-/

namespace Kronk.Source

/-- A reader came to an end with no more tokens before it than at first, or failed for a reason in
the text or the registry. -/
def EndsWithin {α : Type} (registry : Registry) (count : Nat) :
    EStateM.Result Failure Reading α → Prop
  | .ok _ after => after.Within count
  | .error failure _ => failure.HasReason registry

/-- With so much fuel for so many tokens a reader comes to an end, and more fuel makes no
difference. -/
def Finishes {α : Type} (surroundings : Surroundings) (need : Nat → Nat)
    (reader : Nat → Reader α) : Prop :=
  ∀ reading : Reading, reading.Closed → ∀ fuel, need reading.rest.length ≤ fuel →
    reader fuel surroundings reading = reader (need reading.rest.length) surroundings reading ∧
      EndsWithin surroundings.registry reading.rest.length (reader fuel surroundings reading)

/-- Reading a statement took a token and left the tokens closed, or it found the end of the text, or
it failed for a reason in the text or the registry. -/
def Advances (registry : Registry) (before : Reading) :
    EStateM.Result Failure Reading (Option Stmt) → Prop
  | .ok none after => after.current.isEnd = true
  | .ok (some _) after => after.Closed ∧ after.rest.length < before.rest.length
  | .error failure _ => failure.HasReason registry

/-- A number of statements are read one after another, each in surroundings of its own. -/
inductive Follows : Nat → Reading → Reading → Prop
  | start {reading : Reading} : Follows 0 reading reading
  | statement {count : Nat} {first middle last : Reading} {surroundings : Surroundings}
      {stmt : Stmt} : Follows count first middle →
      middle.statement surroundings = .ok (some stmt) last → Follows (count + 1) first last

variable {surroundings : Surroundings} {reading : Reading}

theorem Finishes.of_pairs {α : Type} {reader : Nat → Reader α} {need : Nat → Nat}
    (pairs : ∀ count fuel other, (Setting.steady surroundings).Covers (need count) fuel other →
      (Setting.steady surroundings).Pairs ((Setting.steady surroundings).Holds [] count)
        (reader fuel) (reader other) fun _ reading => reading.Within count) :
    Finishes surroundings need reader := by
  intro reading closed fuel enough
  have within : reading.Within reading.rest.length := ⟨closed, Nat.le_refl _⟩
  obtain ⟨same, reached⟩ :=
    (pairs _ fuel _ (.inr ⟨trivial, enough, Nat.le_refl _⟩)).steady within.holds
  refine ⟨same.symm, ?_⟩
  cases outcome : reader fuel surroundings reading with
  | ok value final =>
    rw [outcome] at reached
    exact reached
  | error failure final =>
    rw [outcome] at reached
    exact reached trivial

section

variable (surroundings)

private theorem statement_finishes : Finishes surroundings (8 * · + 5) Reader.statement := by
  refine .of_pairs fun count fuel other covers => ?_
  refine (((Setting.steady surroundings).statements fuel other).statement covers).weaken
    (fun _ holds => holds) fun found reading reached => ?_
  cases found with
  | none => exact reached.1.within trivial
  | some stmt => exact reached.1.holds.within trivial

private theorem block_finishes : Finishes surroundings (8 * · + 7) Reader.block :=
  .of_pairs fun _ fuel other covers =>
    (((Setting.steady surroundings).statements fuel other).block covers).weaken
      (fun _ holds => holds) fun _ _ reached => reached.1.holds.within trivial

private theorem expr_finishes : Finishes surroundings (6 * · + 3) Reader.expr :=
  .of_pairs fun _ fuel other covers =>
    (((Setting.steady surroundings).expressions fuel other).expr covers).weaken
      (fun _ holds => holds) fun _ _ reached => reached.1.holds.within trivial

private theorem elements_finishes (position : Nat) :
    Finishes surroundings (6 * · + 4) fun fuel => Reader.elements fuel position :=
  .of_pairs fun _ fuel other covers =>
    (((Setting.steady surroundings).expressions fuel other).elements position covers).weaken
      (fun _ holds => holds) fun _ _ reached => reached.1.1.within trivial

theorem entity_finishes (line : Nat) (name symbol : String) :
    Finishes surroundings (6 * · + 1) fun fuel => Reader.entity fuel line name symbol :=
  .of_pairs fun _ fuel other covers =>
    (((Setting.steady surroundings).expressions fuel other).entity line symbol trivial
      covers).weaken
      (fun _ holds => holds) fun _ _ reached => reached.1.within trivial

private theorem typeName_finishes (defining : Option String) :
    Finishes surroundings (· + 1) (Reader.typeName defining) :=
  .of_pairs fun _ _ _ covers => (Setting.Pairs.typeName defining covers).weaken
    (fun _ holds => holds) fun _ _ reached => reached.1.within trivial

/-! ## Statement after statement -/

theorem Reading.Closed.advances (closed : reading.Closed) :
    Advances surroundings.registry reading (reading.statement surroundings) := by
  have within : reading.Within reading.rest.length := ⟨closed, Nat.le_refl _⟩
  have enough : 8 * reading.rest.length + 5 ≤ reading.fuel := by
    unfold Reading.fuel
    omega
  have reached := (((Setting.steady surroundings).statements reading.fuel reading.fuel).statement
    (.inr ⟨trivial, enough, enough⟩) reading within.holds).2
  change Setting.Reached _ _ (reading.statement surroundings) at reached
  cases outcome : reading.statement surroundings with
  | ok found after =>
    rw [outcome] at reached
    cases found with
    | none => exact reached.2
    | some stmt =>
      obtain ⟨fewer, less, holds⟩ := reached.1
      have left := holds.within trivial
      exact ⟨left.closed, Nat.lt_of_le_of_lt left.length_le (less trivial)⟩
  | error failure after =>
    rw [outcome] at reached
    exact reached trivial

end

/-- No more statements are read than there are tokens. -/
theorem Follows.length_le {count : Nat} {first last : Reading} (follows : Follows count first last)
    (closed : first.Closed) : last.Closed ∧ count + last.rest.length ≤ first.rest.length := by
  induction follows with
  | start => exact ⟨closed, by omega⟩
  | @statement _ _ _ _ surroundings _ _ found ih =>
    obtain ⟨middleClosed, fewer⟩ := ih closed
    have advances := middleClosed.advances surroundings
    rw [found] at advances
    have isLess := advances.2
    exact ⟨advances.1, by omega⟩

theorem scan_closed (text : String) (signatures : Table (List String)) :
    (Reading.unread (Token.scan text) signatures).Closed := by
  obtain ⟨tokens, _, ends⟩ := Token.scanLines_cuts 1 text.toList
  unfold Token.scan
  rcases ends with ⟨last, isEnd, scanned⟩ | ⟨failure, scanned⟩
  · refine .inr ⟨last, ?_, by simp [Token.isEnd, isEnd]⟩
    rw [scanned]
    change (⟨.endOfFile, 1⟩ :: tokens ++ [last]).getLast? = some last
    rw [List.getLast?_append]
    rfl
  · exact .inl (by simp [Reading.unread, scanned])

theorem start_endsWithin (surroundings : Surroundings) (text : String)
    (signatures : Table (List String)) :
    EndsWithin surroundings.registry (Token.scan text).tokens.length
      (Reading.start surroundings (Token.scan text) signatures) := by
  have within : Reading.Within _ _ := ⟨scan_closed text signatures, Nat.le_refl _⟩
  have holds : (Setting.steady surroundings).Holds [] _ _ := within.holds
  have reached := ((Setting.Pairs.move false).steady ⟨holds, fun isLine => by cases isLine⟩).2
  rw [Reading.start_eq]
  cases outcome : Reader.move false surroundings (Reading.unread (Token.scan text) signatures) with
  | ok _ after =>
    rw [outcome] at reached
    exact reached.within trivial
  | error failure after =>
    rw [outcome] at reached
    exact reached trivial

theorem readFrom_ends (surroundings : Surroundings) {fuel : Nat} (closed : reading.Closed)
    (enough : reading.rest.length < fuel) :
    (∀ failure ∈ (Program.readFrom surroundings fuel reading).failure,
      failure.HasReason surroundings.registry) ∧
      (Program.readFrom surroundings fuel reading).statements.length ≤ reading.rest.length := by
  induction fuel generalizing reading with
  | zero => omega
  | succ fuel ih =>
    have advances := closed.advances surroundings
    unfold Program.readFrom
    split
    · next failure after found =>
      rw [found] at advances
      refine ⟨fun other same => ?_, Nat.zero_le _⟩
      cases same
      exact advances
    · exact ⟨by simp [Program.ofReading], Nat.zero_le _⟩
    · next stmt after found =>
      rw [found] at advances
      have isLess := advances.2
      obtain ⟨ends, fewer⟩ := ih advances.1 (by omega)
      refine ⟨ends, ?_⟩
      simp only [List.length_cons]
      omega

theorem read_ends (surroundings : Surroundings) (text : String) :
    (∀ failure ∈ (Program.read surroundings text).failure,
      failure.HasReason surroundings.registry) ∧
      (Program.read surroundings text).statements.length ≤ (Token.scan text).tokens.length := by
  have starts := start_endsWithin surroundings text surroundings.module.signatures
  unfold Program.read
  dsimp only
  split
  · next failure after found =>
    rw [found] at starts
    refine ⟨fun other same => ?_, Nat.zero_le _⟩
    cases same
    exact starts
  · next after found =>
    rw [found] at starts
    obtain ⟨ends, fewer⟩ := readFrom_ends surroundings starts.closed
      (Nat.lt_succ_of_le starts.length_le)
    exact ⟨ends, Nat.le_trans fewer starts.length_le⟩

/-- Looking up what stands behind an alias never ends exactly if the chain of duplicates from the id
of the included module never does. -/
theorem signature?_endless_iff {localName symbol : String}
    (plain : ¬Name.ShowsScope (Name.includeId surroundings.module.id localName)) :
    Reader.signature? (Name.ofForeignType surroundings.module.id localName symbol) surroundings
        reading = .error .endless reading ↔
      surroundings.registry.representative?
        (Name.includeId surroundings.module.id localName) = none := by
  have split := (Name.demangle_ofType _ symbol).mpr plain
  let view : Viewpoint :=
    ⟨{ surroundings.module with signatures := reading.signatures }, false⟩
  have stuck := @Registry.lookup?_eq_error_iff surroundings.registry view
    (Name.ofForeignType surroundings.module.id localName symbol) .endless _ Module.signatures
  change Reader.ask (surroundings.registry.signature? view _) surroundings reading = _ ↔ _
  constructor
  · intro asked
    cases answer : surroundings.registry.signature? view
        (Name.ofForeignType surroundings.module.id localName symbol) with
    | ok found =>
      rw [answer] at asked
      cases asked
    | error failure =>
      rw [answer] at asked
      cases asked
      cases stuck.mp answer with
      | endless again endless =>
        cases split.symm.trans again
        exact endless
  · intro endless
    have answer : surroundings.registry.signature? view
        (Name.ofForeignType surroundings.module.id localName symbol) = .error .endless :=
      stuck.mpr (.endless split endless)
    rw [answer]
    rfl

/-- Reading comes to an end on every text, unless it looks a name up whose chain of duplicates never
ends.  The depth of every reader is bounded by the number of tokens before it, every statement takes
a token, and so the statements of a text end with the end of the text or with a failure for a reason
in the text; only where some chain of duplicates never ends can reading be endless, and it is where
a name behind an alias of such an id is looked up. -/
theorem reading_ends_with_chains (surroundings : Surroundings) :
    (Finishes surroundings (8 * · + 5) Reader.statement ∧
      Finishes surroundings (8 * · + 7) Reader.block ∧
      Finishes surroundings (6 * · + 3) Reader.expr ∧
      (∀ position, Finishes surroundings (6 * · + 4) fun fuel => Reader.elements fuel position) ∧
      (∀ line name symbol,
        Finishes surroundings (6 * · + 1) fun fuel => Reader.entity fuel line name symbol) ∧
      ∀ defining, Finishes surroundings (· + 1) (Reader.typeName defining)) ∧
    (∀ reading : Reading, reading.Closed →
      Advances surroundings.registry reading (reading.statement surroundings)) ∧
    (∀ count first last, first.Closed → Follows count first last →
      last.Closed ∧ count + last.rest.length ≤ first.rest.length) ∧
    (∀ text,
      (∀ signatures, EndsWithin surroundings.registry (Token.scan text).tokens.length
        (Reading.start surroundings (Token.scan text) signatures)) ∧
      (∀ failure ∈ (Program.read surroundings text).failure,
        failure.HasReason surroundings.registry) ∧
      (Program.read surroundings text).statements.length ≤ (Token.scan text).tokens.length) ∧
    ∀ localName symbol reading,
      ¬Name.ShowsScope (Name.includeId surroundings.module.id localName) →
      (Reader.signature? (Name.ofForeignType surroundings.module.id localName symbol) surroundings
          reading = .error .endless reading ↔
        surroundings.registry.representative?
          (Name.includeId surroundings.module.id localName) = none) := by
  refine ⟨⟨statement_finishes _, block_finishes _, expr_finishes _, elements_finishes _,
    entity_finishes _, typeName_finishes _⟩, fun _ closed => closed.advances _,
    fun _ _ _ closed follows => follows.length_le closed, fun text => ?_,
    fun _ _ _ plain => signature?_endless_iff plain⟩
  exact ⟨start_endsWithin surroundings text, read_ends surroundings text⟩

end Kronk.Source
