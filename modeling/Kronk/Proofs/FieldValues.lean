import Mathlib.Data.List.Perm.Subperm
import Kronk.Proofs.ReaderRules
import Kronk.Proofs.Termination

/-!
# Entities from field values

An entity is written with values for some of its fields, by name and in any order.  The reader
accepts exactly the values that are for different fields of the signature, and puts each one at the
position of its field; so the order of the values makes no difference but for their lines.
-/

namespace Kronk.Source

variable {given : List (String × Expr)} {surroundings : Surroundings} {signature : List String}

/-! ## Values for fields -/

/-- The value that each field of the signature was given. -/
def positions (signature : List String) (given : List (String × Expr)) : List (Option Expr) :=
  signature.map fun field => given.lookup field

/-- The values are for different fields of the signature. -/
def Accepts (signature : List String) (given : List (String × Expr)) : Prop :=
  (∀ field ∈ given.map Prod.fst, field ∈ signature) ∧ (given.map Prod.fst).Nodup

/-- From the name of a field on, the field is given a value. -/
def GivesField (surroundings : Surroundings) (before : Reading) (field : String) (value : Expr)
    (after : Reading) : Prop :=
  ∃ named started, before.current.lexeme = .identifier field ∧
    Reader.next surroundings before = .ok () named ∧
    named.current.lexeme = .operator Operator.assign.spelling ∧
    Reader.next surroundings named = .ok () started ∧
    Gives surroundings Reader.expr started value after

/-- From the name of a field on, fields are given values, up to the closing parenthesis. -/
inductive GivesFields (surroundings : Surroundings) :
    Reading → List (String × Expr) → Reading → Prop
  | last {before after : Reading} {field : String} {value : Expr} :
      GivesField surroundings before field value after → after.current.lexeme = .char ')' →
      GivesFields surroundings before [(field, value)] after
  | cons {before middle behind after : Reading} {field : String} {value : Expr}
      {rest : List (String × Expr)} :
      GivesField surroundings before field value middle → middle.current.lexeme = .char ',' →
      Reader.next surroundings middle = .ok () behind →
      GivesFields surroundings behind rest after →
      GivesFields surroundings before ((field, value) :: rest) after

/-- What stands between the parentheses of an entity. -/
def Arguments (surroundings : Surroundings) (opened : Reading) (given : List (String × Expr))
    (closing : Reading) : Prop :=
  given = [] ∧ closing = opened ∧ opened.current.lexeme = .char ')' ∨
    GivesFields surroundings opened given closing

/-- The values are at their positions if they are accepted, else the reader fails. -/
def Constructs (signature : List String) (given : List (String × Expr)) (after : Reading)
    (result : EStateM.Result Failure Reading (List (Option Expr))) : Prop :=
  (Accepts signature given → result = .ok (positions signature given) after) ∧
    (¬Accepts signature given → Refused result)

section

variable {signature : List String} {given done : List (String × Expr)} {field : String}
  {value : Expr} {position : Nat}

theorem lookup_isSome : (done.lookup field).isSome = true ↔ field ∈ done.map Prod.fst := by
  simp only [List.lookup_isSome_iff, beq_iff_eq, List.mem_map]
  constructor
  · rintro ⟨entry, member, rfl⟩
    exact ⟨entry, member, rfl⟩
  · rintro ⟨entry, member, rfl⟩
    exact ⟨entry, member, rfl⟩

theorem Accepts.snoc (accepts : Accepts signature done) (isKnown : field ∈ signature)
    (isNew : field ∉ done.map Prod.fst) : Accepts signature (done ++ [(field, value)]) := by
  constructor
  · intro other member
    rw [List.map_append, List.mem_append] at member
    rcases member with before | last
    · exact accepts.1 other before
    · rw [List.mem_singleton.mp last]
      exact isKnown
  · rw [List.map_append, List.nodup_append]
    refine ⟨accepts.2, by simp, fun other before last isLast => ?_⟩
    rintro rfl
    rw [List.mem_singleton.mp isLast] at before
    exact isNew before

theorem Accepts.length_le (accepts : Accepts signature given) :
    given.length ≤ signature.length := by
  rw [← List.length_map Prod.fst]
  exact (accepts.2.subperm accepts.1).length_le

private theorem getElem?_positions (found : signature.findIdx? (· == field) = some position) :
    (positions signature done)[position]?.join = done.lookup field := by
  obtain ⟨_, same, _⟩ := List.findIdx?_eq_some_iff_getElem.mp found
  simp_all [positions]

theorem set_positions (nodup : signature.Nodup)
    (found : signature.findIdx? (· == field) = some position) (isNew : field ∉ done.map Prod.fst) :
    (positions signature done).set position (some value) =
      positions signature (done ++ [(field, value)]) := by
  obtain ⟨inside, same, _⟩ := List.findIdx?_eq_some_iff_getElem.mp found
  have isField : signature[position]? = some field := by
    rw [List.getElem?_eq_getElem inside, eq_of_beq same]
  have absent : done.lookup field = none := by
    rw [← Option.not_isSome_iff_eq_none, lookup_isSome]
    exact isNew
  apply List.ext_getElem?
  intro index
  simp only [positions, List.getElem?_set, List.getElem?_map, List.length_map, inside, if_true]
  by_cases isHere : position = index
  · subst isHere
    simp [isField, List.lookup_append, absent]
  · cases other : signature[index]? with
    | none => simp [isHere]
    | some name =>
      have differs : name ≠ field := by
        rintro rfl
        exact isHere ((List.getElem?_inj inside nodup).mp (isField.trans other.symm))
      simp [isHere, List.lookup_append, List.lookup_cons, beq_false_of_ne differs]

end

theorem GivesFields.length_pos {before after : Reading}
    (givesFields : GivesFields surroundings before given after) : 0 < given.length := by
  cases givesFields <;> simp

section

variable {surroundings : Surroundings} {before after final : Reading} {field symbol : String}
  {value : Expr} {signature : List String} {given done rest : List (String × Expr)}

theorem Constructs.of_refused (rejects : ¬Accepts signature given)
    (result : EStateM.Result Failure Reading (List (Option Expr))) (refused : Refused result) :
    Constructs signature given after result :=
  ⟨fun accepts => absurd accepts rejects, fun _ => refused⟩

theorem Accepts.mem (accepts : Accepts signature (done ++ (field, value) :: rest)) :
    field ∈ signature ∧ field ∉ done.map Prod.fst := by
  refine ⟨accepts.1 field (by simp), fun earlier => ?_⟩
  have distinct := accepts.2
  rw [List.map_append, List.nodup_append] at distinct
  exact distinct.2.2 field earlier field (by simp) rfl

/-- One field is read with its value, and put at its position. -/
theorem GivesField.constructs (givesField : GivesField surroundings before field value after)
    (nodup : signature.Nodup) {count : Nat}
    (continues : field ∈ signature → field ∉ done.map Prod.fst →
      Settles surroundings (fun fuel => do
        if ← Reader.atChar ')' then return positions signature (done ++ [(field, value)])
        Reader.passChar ',' .literalEnd
        if count = signature.length then Reader.fail (.literalTooLong symbol)
        Reader.fieldValues fuel symbol signature (count + 1)
          (positions signature (done ++ [(field, value)]))) after
        (Constructs signature (done ++ (field, value) :: rest) final)) :
    Settles surroundings (fun fuel =>
      Reader.fieldValues fuel symbol signature count (positions signature done)) before
      (Constructs signature (done ++ (field, value) :: rest) final) := by
  obtain ⟨named, started, isName, passes, assigns, moves, gives⟩ := givesField
  refine Settles.of_succ (fun fuel => by rw [Reader.fieldValues]) ?_
  refine Settles.step (Reader.identifier_eq isName passes) ?_
  cases found : signature.findIdx? (· == field) with
  | none =>
    refine Settles.of_ok (Constructs.of_refused (fun accepts => ?_) _ (refused_fail _))
    have missing := List.findIdx?_eq_none_iff.mp found field accepts.mem.1
    simp at missing
  | some position =>
    obtain ⟨inside, same, _⟩ := List.findIdx?_eq_some_iff_getElem.mp found
    have isKnown : field ∈ signature := by
      rw [← eq_of_beq same]
      exact List.getElem_mem inside
    refine Settles.current (.guard (fun other => by simp [assigns] at other) fun _ => ?_)
    refine Settles.step moves (Settles.bind gives (.guard (fun repeated => ?_) fun isNew => ?_))
    · rw [getElem?_positions found, lookup_isSome] at repeated
      exact Constructs.of_refused fun accepts => accepts.mem.2 repeated
    · rw [getElem?_positions found, lookup_isSome] at isNew
      rw [set_positions nodup found isNew]
      exact continues isKnown isNew

end

theorem GivesFields.constructs {before after : Reading} {done : List (String × Expr)}
    (givesFields : GivesFields surroundings before given after) (nodup : signature.Nodup)
    (symbol : String) (accepts : Accepts signature done) :
    Settles surroundings (fun fuel =>
      Reader.fieldValues fuel symbol signature (done.length + 1) (positions signature done)) before
      (Constructs signature (done ++ given) after) := by
  induction givesFields generalizing done with
  | @last before after field value givesField closes =>
    refine givesField.constructs nodup fun isKnown isNew => ?_
    refine Settles.onChar closes (Settles.of_ok ?_)
    exact ⟨fun _ => rfl, fun rejects => absurd (accepts.snoc isKnown isNew) rejects⟩
  | @cons before middle behind after field value rest givesField comma moves givesRest ih =>
    refine givesField.constructs nodup fun isKnown isNew => ?_
    refine Settles.atChar false (by simp [Token.isChar, comma]) (Settles.passChar comma moves ?_)
    refine .guard (fun full => Constructs.of_refused fun accepted => ?_) fun _ => ?_
    · have fits := accepted.length_le
      have more := givesRest.length_pos
      simp only [List.length_append, List.length_cons] at fits
      omega
    · have extended : Accepts signature (done ++ [(field, value)]) :=
        accepts.snoc isKnown isNew
      have later := ih extended
      rw [List.append_assoc, List.length_append] at later
      exact later

/-! ## Entities -/

/-- From its opening parenthesis on, an entity is written with values for fields. -/
structure Construction (surroundings : Surroundings) (name : String) (signature : List String)
    (start : Reading) (given : List (String × Expr)) (final : Reading) : Prop where
  closed : start.Closed
  isHere : start.current.lexeme = .char '('
  inside : ∃ opened closing, Reader.next surroundings start = .ok () opened ∧
    Reader.signature? name surroundings opened = .ok (some signature) opened ∧
    Arguments surroundings opened given closing ∧
    Reader.next surroundings closing = .ok () final

/-- An entity is read from its parentheses on. -/
theorem Arguments.constructs {surroundings : Surroundings} {start opened closing final : Reading}
    {signature : List String} {given : List (String × Expr)} {line : Nat} {name symbol : String}
    (arguments : Arguments surroundings opened given closing) (nodup : signature.Nodup)
    (isHere : start.current.lexeme = .char '(')
    (opens : Reader.next surroundings start = .ok () opened)
    (known : Reader.signature? name surroundings opened = .ok (some signature) opened)
    (leaves : Reader.next surroundings closing = .ok () final) :
    Settles surroundings (fun fuel => Reader.entity fuel line name symbol) start fun result =>
      (Accepts signature given →
        result = .ok (.entity line name symbol (positions signature given)) final) ∧
      (¬Accepts signature given → Refused result) := by
  refine Settles.of_succ (fun fuel => by rw [Reader.entity]) (Settles.passChar isHere opens ?_)
  refine Settles.step known ?_
  rcases arguments with ⟨rfl, rfl, closes⟩ | givesFields
  · refine Settles.onChar closes (Settles.step leaves (Settles.of_ok ?_))
    exact ⟨fun _ => rfl, fun rejects => absurd ⟨by simp, by simp⟩ rejects⟩
  · obtain ⟨field, isField⟩ : ∃ field, opened.current.lexeme = .identifier field := by
      cases givesFields with
      | last givesField _ => exact ⟨_, givesField.choose_spec.choose_spec.1⟩
      | cons givesField _ _ _ => exact ⟨_, givesField.choose_spec.choose_spec.1⟩
    have reads := givesFields.constructs nodup symbol (⟨by simp, by simp⟩ : Accepts signature [])
    refine Settles.atChar false (by simp [Token.isChar, isField]) (Settles.current ?_)
    rw [isField]
    by_cases accepts : Accepts signature given
    · have gives : Gives surroundings _ opened (positions signature given) closing :=
        reads.mono fun _ constructs => constructs.1 accepts
      refine Settles.bind gives (Settles.step leaves (Settles.of_ok ?_))
      exact ⟨fun _ => rfl, fun rejects => absurd accepts rejects⟩
    · have refused := reads.mono fun _ constructs => constructs.2 accepts
      refine refused.refused_bind.mono fun _ refused => ?_
      exact ⟨fun accepted => absurd accepted accepts, fun _ => refused⟩

private theorem unlinedOptions_eq (fields : List (Option Expr)) :
    unlinedOptions fields = fields.map (Option.map Expr.unlined) := by
  induction fields with
  | nil => rfl
  | cons field rest ih => cases field <;> simp [unlinedOptions, unlinedOption, ih]

/-- The values of fields without lines. -/
def unlinedGiven (given : List (String × Expr)) : List (String × Expr) :=
  given.map fun entry => (entry.1, entry.2.unlined)

private theorem unlinedGiven_names (given : List (String × Expr)) :
    (unlinedGiven given).map Prod.fst = given.map Prod.fst := by
  rw [unlinedGiven, List.map_map]
  rfl

private theorem unlined_positions (signature : List String) (given : List (String × Expr)) :
    unlinedOptions (positions signature given) = positions signature (unlinedGiven given) := by
  have looks : ∀ field, (unlinedGiven given).lookup field =
      (given.lookup field).map Expr.unlined := by
    intro field
    induction given with
    | nil => rfl
    | cons entry rest ih =>
      rw [unlinedGiven] at ih ⊢
      rw [List.map_cons, List.lookup_cons, List.lookup_cons, ih]
      cases field == entry.1 <;> rfl
  rw [unlinedOptions_eq, positions, positions, List.map_map]
  exact List.map_congr_left fun field _ => (looks field).symm

/-- The order of values for different fields makes no difference. -/
theorem positions_perm {other : List (String × Expr)} (same : given.Perm other)
    (distinct : (given.map Prod.fst).Nodup) :
    positions signature given = positions signature other := by
  have otherDistinct : (other.map Prod.fst).Nodup := (same.map Prod.fst).nodup_iff.mp distinct
  refine List.map_congr_left fun field _ => Option.ext fun value => ?_
  constructor
  · exact fun found => Table.lookup_of_mem otherDistinct
      (same.mem_iff.mp (Table.mem_of_lookup found))
  · exact fun found => Table.lookup_of_mem distinct (same.mem_iff.mpr (Table.mem_of_lookup found))

/-- With fuel for its tokens a reader has the outcome that it has with enough fuel. -/
theorem Finishes.settles {α : Type} {need : Nat → Nat} {reader : Nat → Reader α} {reading : Reading}
    {outcome : EStateM.Result Failure Reading α → Prop}
    (finishes : Finishes surroundings need reader) (closed : reading.Closed)
    (settles : Settles surroundings reader reading outcome) {fuel : Nat}
    (enough : need reading.rest.length ≤ fuel) : outcome (reader fuel surroundings reading) := by
  obtain ⟨least, reads⟩ := settles
  have more := reads (max least fuel) (Nat.le_max_left _ _)
  rw [(finishes reading closed _ (Nat.le_trans enough (Nat.le_max_right _ _))).1] at more
  rw [(finishes reading closed _ enough).1]
  exact more

/-- The entity is read with the values at their positions, or is refused. -/
theorem Construction.outcome {start final : Reading} {name : String} {fuel : Nat}
    (construction : Construction surroundings name signature start given final)
    (nodup : signature.Nodup) (enough : 6 * start.rest.length + 1 ≤ fuel) (line : Nat)
    (symbol : String) :
    (Accepts signature given → Reader.entity fuel line name symbol surroundings start =
      .ok (.entity line name symbol (positions signature given)) final) ∧
    (¬Accepts signature given →
      Refused (Reader.entity fuel line name symbol surroundings start)) := by
  obtain ⟨opened, closing, opens, known, arguments, leaves⟩ := construction.inside
  exact (entity_finishes surroundings line name symbol).settles construction.closed
    (arguments.constructs nodup construction.isHere opens known leaves) enough

private theorem getElem?_positions_eq_some (distinct : (given.map Prod.fst).Nodup) {position : Nat}
    {field : String} {value : Expr} (isField : signature[position]? = some field) :
    (positions signature given)[position]? = some (some value) ↔ (field, value) ∈ given := by
  rw [positions, List.getElem?_map, isField, Option.map_some, Option.some_inj]
  exact ⟨Table.mem_of_lookup, Table.lookup_of_mem distinct⟩

/-- An entity can be written exactly with values for different fields of its signature.  It has the
value of each field at the position of the field, and nothing at the other positions; so other
orders of the values give the same entity, up to lines. -/
theorem entity_construction {surroundings : Surroundings} {start final : Reading}
    {signature : List String} {given : List (String × Expr)} {name : String} {fuel : Nat}
    (nodup : signature.Nodup)
    (construction : Construction surroundings name signature start given final)
    (enough : 6 * start.rest.length + 1 ≤ fuel) (line : Nat) (symbol : String) :
    ((∃ node after, Reader.entity fuel line name symbol surroundings start = .ok node after) ↔
      (∀ field ∈ given.map Prod.fst, field ∈ signature) ∧ (given.map Prod.fst).Nodup) ∧
    (∀ failure after,
      Reader.entity fuel line name symbol surroundings start = .error failure after →
      failure ≠ .outOfFuel) ∧
    ∀ node after, Reader.entity fuel line name symbol surroundings start = .ok node after →
      after = final ∧
      (∃ fields, node = .entity line name symbol fields ∧ fields.length = signature.length ∧
        ∀ (position : Nat) (field : String) (value : Expr), signature[position]? = some field →
          (fields[position]? = some (some value) ↔ (field, value) ∈ given)) ∧
      ∀ (surroundings : Surroundings) (start final : Reading) (other : List (String × Expr))
        (fuel line : Nat),
        Construction surroundings name signature start other final →
        6 * start.rest.length + 1 ≤ fuel → (unlinedGiven other).Perm (unlinedGiven given) →
        ∃ same, Reader.entity fuel line name symbol surroundings start = .ok same final ∧
          same.unlined = node.unlined := by
  by_cases accepts : Accepts signature given
  · have result := (construction.outcome nodup enough line symbol).1 accepts
    rw [result]
    refine ⟨⟨fun _ => accepts, fun _ => ⟨_, _, rfl⟩⟩, by simp, ?_⟩
    rintro _ _ ⟨⟩
    refine ⟨rfl, ⟨_, rfl, List.length_map _,
      fun _ _ _ => getElem?_positions_eq_some accepts.2⟩, ?_⟩
    intro surroundings start final other fuel line written least permuted
    have names := permuted.map Prod.fst
    rw [unlinedGiven_names, unlinedGiven_names] at names
    have distinct : (other.map Prod.fst).Nodup := names.nodup_iff.mpr accepts.2
    have accepted : Accepts signature other :=
      ⟨fun field member => accepts.1 field (names.mem_iff.mp member), distinct⟩
    refine ⟨_, (written.outcome nodup least line symbol).1 accepted, ?_⟩
    rw [← unlinedGiven_names] at distinct
    rw [Expr.unlined, Expr.unlined, unlined_positions, unlined_positions,
      positions_perm permuted distinct]
  · obtain ⟨failure, after, failed, inText⟩ :=
      (construction.outcome nodup enough line symbol).2 accepts
    rw [failed]
    refine ⟨⟨by simp, fun accepted => absurd accepted accepts⟩, ?_, by simp⟩
    rintro _ _ ⟨⟩
    exact inText

/-- The tokens of `(second = a, first = b)`, up to the end of the text. -/
def pairTokens : List Token :=
  [.char '(', .identifier "second", .operator "=", .identifier "a", .char ',', .identifier "first",
    .operator "=", .identifier "b", .char ')', .endOfFile].map (⟨·, 1⟩)

/-- The reader stands at one of the tokens. -/
def pairAt (position : Nat) : Reading where
  current := pairTokens.getD position ⟨.endOfFile, 1⟩
  rest := pairTokens.drop (position + 1)
  failure := none
  signatures := ⟨[(Name.ofType "" "Pair", ["first", "second"])]⟩
  trace := []

private theorem pairAt_name (position : Nat) {name : String}
    (isHere : (pairAt position).current = ⟨.identifier name, 1⟩)
    (noEntity : (pairAt (position + 1)).signatures.contains (Name.ofType "" name) = false)
    (moves : Reader.next bare (pairAt position) = .ok () (pairAt (position + 1)))
    (ends : (pairAt (position + 1)).Ends) :
    Gives bare Reader.expr (pairAt position) (.identifier 1 name) (pairAt (position + 1)) := by
  refine Gives.expr_primary (.primary_named (by rw [isHere]) moves ?_) ends
  rw [isHere]
  exact .named_identifier ends.follows noEntity

theorem pair_construction :
    ∃ fields, Reader.entity 55 1 (Name.ofType "" "Pair") "Pair" bare (pairAt 0) =
        .ok (.entity 1 (Name.ofType "" "Pair") "Pair" fields) (pairAt 9) ∧
      fields[1]? = some (some (.identifier 1 "a")) := by
  have second : GivesField bare (pairAt 1) "second" (.identifier 1 "a") (pairAt 4) :=
    ⟨pairAt 2, pairAt 3, rfl, rfl, rfl, rfl,
      pairAt_name 3 rfl (by decide +kernel) rfl (.of_char rfl (by decide))⟩
  have first : GivesField bare (pairAt 5) "first" (.identifier 1 "b") (pairAt 8) :=
    ⟨pairAt 6, pairAt 7, rfl, rfl, rfl, rfl,
      pairAt_name 7 rfl (by decide +kernel) rfl (.of_char rfl (by decide))⟩
  have construction : Construction bare (Name.ofType "" "Pair") ["first", "second"] (pairAt 0)
      [("second", .identifier 1 "a"), ("first", .identifier 1 "b")] (pairAt 9) :=
    ⟨.inr ⟨_, rfl, rfl⟩, rfl, pairAt 1, pairAt 8, rfl, rfl,
      .inr (.cons second rfl rfl (.last first rfl)), rfl⟩
  obtain ⟨accepted, _, result⟩ :=
    entity_construction (by decide) construction (by decide : 6 * 9 + 1 ≤ 55) 1 "Pair"
  obtain ⟨node, after, reads⟩ := accepted.mpr ⟨by decide, by decide⟩
  obtain ⟨rfl, ⟨fields, rfl, _, values⟩, _⟩ := result node after reads
  exact ⟨fields, reads, (values 1 "second" _ rfl).mpr (by simp)⟩

end Kronk.Source
