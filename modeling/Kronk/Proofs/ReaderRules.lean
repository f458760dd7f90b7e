import Kronk.Proofs.Precedence

/-!
# Reading with enough fuel

What a reader does once it has enough fuel, as rules that follow its steps: for any outcome of the
reader, and for the operands and expressions that it finds.
-/

namespace Kronk.Source

/-! ## Expressions without lines -/

mutual

/-- The expression with every line forgotten. -/
def Expr.unlined : Expr → Expr
  | .boolean _ value => .boolean 0 value
  | .number _ value => .number 0 value
  | .string _ value => .string 0 value
  | .identifier _ name => .identifier 0 name
  | .list _ elements => .list 0 (unlinedAll elements)
  | .index _ list index => .index 0 list.unlined index.unlined
  | .slice _ list start stop => .slice 0 list.unlined (unlinedOption start) (unlinedOption stop)
  | .entity _ name symbol fields => .entity 0 name symbol (unlinedOptions fields)
  | .field _ entity name => .field 0 entity.unlined name
  | .binary _ operator left right => .binary 0 operator left.unlined right.unlined
  | .unary _ operator operand => .unary 0 operator operand.unlined
  | .assignment _ target value => .assignment 0 target.unlined value.unlined
  | .call _ callee arguments => .call 0 callee (unlinedAll arguments)

def unlinedAll : List Expr → List Expr
  | [] => []
  | expression :: rest => expression.unlined :: unlinedAll rest

def unlinedOption : Option Expr → Option Expr
  | none => none
  | some expression => some expression.unlined

def unlinedOptions : List (Option Expr) → List (Option Expr)
  | [] => []
  | expression :: rest => unlinedOption expression :: unlinedOptions rest

end

theorem Expr.isTarget_unlined (expression : Expr) :
    expression.unlined.isTarget = expression.isTarget := by
  cases expression <;> rfl

/-! ## Outcomes -/

/-- With enough fuel a reader has a certain outcome. -/
def Settles {α : Type} (surroundings : Surroundings) (reader : Nat → Reader α) (before : Reading)
    (outcome : EStateM.Result Failure Reading α → Prop) : Prop :=
  ∃ enough, ∀ fuel, enough ≤ fuel → outcome (reader fuel surroundings before)

/-- With enough fuel a reader gives a value and moves from one reading to another. -/
abbrev Gives {α : Type} (surroundings : Surroundings) (reader : Nat → Reader α) (before : Reading)
    (value : α) (after : Reading) : Prop :=
  Settles surroundings reader before (· = .ok value after)

/-- A reader fails for a reason in the text. -/
def Refused {α : Type} (result : EStateM.Result Failure Reading α) : Prop :=
  ∃ failure final, result = .error failure final ∧ failure ≠ .outOfFuel

section

variable {α β : Type} {surroundings : Surroundings} {before middle moved after : Reading}
  {value : α} {outcome : EStateM.Result Failure Reading β → Prop}

namespace Settles

theorem of_ok {reader : Reader β} (result : outcome (reader surroundings before)) :
    Settles surroundings (fun _ => reader) before outcome :=
  ⟨0, fun _ _ => result⟩

theorem of_succ {reader body : Nat → Reader β} (unfolds : ∀ fuel, reader (fuel + 1) = body fuel)
    (settles : Settles surroundings body before outcome) :
    Settles surroundings reader before outcome := by
  obtain ⟨enough, reads⟩ := settles
  refine ⟨enough + 1, fun fuel more => ?_⟩
  obtain ⟨less, rfl⟩ := Nat.exists_eq_add_of_le' (Nat.le_trans (Nat.le_add_left 1 enough) more)
  rw [unfolds]
  exact reads less (Nat.le_of_succ_le_succ more)

theorem bind {first : Nat → Reader α} {next : Nat → α → Reader β}
    (starts : Settles surroundings first before (· = .ok value middle))
    (continues : Settles surroundings (fun fuel => next fuel value) middle outcome) :
    Settles surroundings (fun fuel => first fuel >>= next fuel) before outcome := by
  obtain ⟨enough, reads⟩ := starts
  obtain ⟨more, goesOn⟩ := continues
  refine ⟨max enough more, fun fuel least => ?_⟩
  have result := reads fuel (Nat.le_trans (Nat.le_max_left _ _) least)
  have later := goesOn fuel (Nat.le_trans (Nat.le_max_right _ _) least)
  change outcome ((first fuel >>= next fuel) surroundings before)
  rw [Reader.bind_ok result]
  exact later

/-- A step that needs no fuel comes first. -/
theorem step {first : Reader α} {next : Nat → α → Reader β}
    (starts : first surroundings before = .ok value middle)
    (continues : Settles surroundings (fun fuel => next fuel value) middle outcome) :
    Settles surroundings (fun fuel => first >>= next fuel) before outcome :=
  bind (of_ok starts) continues

theorem passChar {c : Char} {error : ReadError} {next : Nat → Reader β}
    (isHere : before.current.lexeme = .char c)
    (moves : Reader.next surroundings before = .ok () moved)
    (continues : Settles surroundings next moved outcome) :
    Settles surroundings (fun fuel => do Reader.passChar c error; next fuel) before outcome := by
  have passes : Reader.passChar c error surroundings before = .ok () moved := by
    have atChar : Reader.atChar c surroundings before = .ok true before := by
      change EStateM.Result.ok (before.current.isChar c) before = _
      simp [Token.isChar, isHere]
    rw [Reader.passChar, Reader.bind_ok atChar]
    simp only [if_true]
    exact moves
  exact step passes continues

theorem atChar {c : Char} {next : Nat → Bool → Reader β} (found : Bool)
    (isHere : before.current.isChar c = found)
    (continues : Settles surroundings (fun fuel => next fuel found) before outcome) :
    Settles surroundings (fun fuel => do next fuel (← Reader.atChar c)) before outcome :=
  step (congrArg (EStateM.Result.ok · before) isHere) continues

theorem onChar {c : Char} {next : Nat → Bool → Reader β} (isHere : before.current.lexeme = .char c)
    (continues : Settles surroundings (fun fuel => next fuel true) before outcome) :
    Settles surroundings (fun fuel => do next fuel (← Reader.atChar c)) before outcome :=
  atChar true (by simp [Token.isChar, isHere]) continues

theorem line {next : Nat → Nat → Reader β}
    (continues : Settles surroundings (fun fuel => next fuel before.current.line) before outcome) :
    Settles surroundings (fun fuel => do next fuel (← Reader.line)) before outcome :=
  step rfl continues

theorem current {next : Nat → Token → Reader β}
    (continues : Settles surroundings (fun fuel => next fuel before.current) before outcome) :
    Settles surroundings (fun fuel => do next fuel (← Reader.current)) before outcome :=
  step rfl continues

end Settles

theorem Reader.identifier_eq {name : String} {error : ReadError}
    (isHere : before.current.lexeme = .identifier name)
    (moves : Reader.next surroundings before = .ok () after) :
    Reader.identifier error surroundings before = .ok name after := by
  rw [Reader.identifier,
    Reader.bind_ok (rfl : Reader.current surroundings before = .ok before.current before), isHere]
  simp only
  rw [Reader.bind_ok moves]
  rfl

theorem refused_fail (error : ReadError) :
    Refused ((Reader.fail error : Reader β) surroundings before) := by
  refine ⟨_, _, rfl, fun same => ?_⟩
  cases same

theorem Settles.mono {reader : Nat → Reader β} {weaker : EStateM.Result Failure Reading β → Prop}
    (settles : Settles surroundings reader before outcome)
    (weakens : ∀ result, outcome result → weaker result) :
    Settles surroundings reader before weaker := by
  obtain ⟨enough, reads⟩ := settles
  exact ⟨enough, fun fuel more => weakens _ (reads fuel more)⟩

theorem Settles.refused_bind {first : Nat → Reader α} {next : Nat → α → Reader β}
    (refused : Settles surroundings first before Refused) :
    Settles surroundings (fun fuel => first fuel >>= next fuel) before Refused := by
  obtain ⟨enough, fails⟩ := refused
  refine ⟨enough, fun fuel more => ?_⟩
  obtain ⟨failure, final, failed, inText⟩ := fails fuel more
  exact ⟨failure, final, Reader.bind_error failed, inText⟩

theorem Settles.guard {condition : Prop} [Decidable condition] {error : ReadError}
    {next : Nat → Reader β} (refuses : condition → ∀ result, Refused result → outcome result)
    (continues : ¬condition → Settles surroundings next before outcome) :
    Settles surroundings (fun fuel => do
      if condition then Reader.fail error
      next fuel) before outcome := by
  by_cases holds : condition
  · simp only [holds, if_true]
    have refused :
        Settles surroundings (fun _ => (Reader.fail error : Reader Unit)) before Refused :=
      Settles.of_ok (refused_fail error)
    exact refused.refused_bind.mono (refuses holds)
  · simp only [holds, if_false]
    exact continues holds

end

/-! ## Operands and expressions -/

/-- The signature of the entity that a mangled name stands for, where some entities have been
read. -/
def Surroundings.signature? (surroundings : Surroundings) (signatures : Table (List String))
    (mangled : String) : Except Failure (Option (List String)) :=
  surroundings.registry.signature? ⟨{ surroundings.module with signatures := signatures }, false⟩
    mangled

/-- The token the reading stands at makes a name before it neither a call nor an alias. -/
structure Reading.Follows (reading : Reading) : Prop where
  noScope : reading.current.lexeme ≠ .scope
  noCall : reading.current.isChar '(' = false

/-- The token the reading stands at ends every expression before it. -/
structure Reading.Ends (reading : Reading) : Prop where
  stops : reading.Stops
  follows : reading.Follows

namespace Reading

variable {reading : Reading}

theorem Ends.of_char {c : Char} (isHere : reading.current.lexeme = .char c)
    (member : c ∈ [')', ']', ',', ':']) : reading.Ends := by
  have apart : c ≠ '[' ∧ c ≠ '.' ∧ c ≠ '(' := by
    simp only [List.mem_cons, List.not_mem_nil, or_false] at member
    rcases member with rfl | rfl | rfl | rfl <;> decide
  refine ⟨⟨?_, ?_, ?_⟩, ?_, ?_⟩
  · simp [isHere]
  · simp [Token.isChar, isHere, apart.1]
  · simp [Token.isChar, isHere, apart.2.1]
  · simp [isHere]
  · simp [Token.isChar, isHere, apart.2.2]

theorem Ends.of_end (isHere : reading.current.lexeme = .endOfFile) : reading.Ends := by
  refine ⟨⟨?_, ?_, ?_⟩, ?_, ?_⟩ <;> simp [Token.isChar, isHere]

theorem Follows.of_operator {spelling : String}
    (isHere : reading.current.lexeme = .operator spelling) : reading.Follows := by
  constructor <;> simp [Token.isChar, isHere]

theorem Follows.of_char {c : Char} (isHere : reading.current.lexeme = .char c) (differs : c ≠ '(') :
    reading.Follows := by
  constructor <;> simp [Token.isChar, isHere, differs]

theorem Ends.operator?_eq (ends : reading.Ends) : reading.operator? = none := by
  have continues : Continues bare reading [] reading := .stop ends.stops
  exact continues.operator?_eq

end Reading

namespace Gives

variable {surroundings : Surroundings} {before middle moved after : Reading}

theorem access_stop {target : Expr} (noIndex : before.current.isChar '[' = false)
    (noField : before.current.isChar '.' = false) :
    Gives surroundings (fun fuel => Reader.access fuel target) before target before :=
  .of_succ (fun _ => rfl) ⟨0, fun fuel _ => Reader.access_eq noIndex noField fuel target⟩

variable {result : Expr} {name : String}

/-- An operand and the suffixes behind it are an expression. -/
theorem binary_access {minimum : Nat} {target : Expr}
    (suffixes : Gives surroundings (fun fuel => Reader.access fuel target) before result after)
    (ends : after.Ends) :
    Gives surroundings (fun fuel => Reader.binary fuel minimum target) before result after := by
  refine .of_succ (fun fuel => by rw [Reader.binary]) (suffixes.bind ?_)
  refine .step (Reader.operator?_eq surroundings after) ?_
  rw [ends.operator?_eq]
  exact .of_ok rfl

theorem expr_access {target : Expr}
    (operand : Gives surroundings Reader.primary before target middle)
    (suffixes : Gives surroundings (fun fuel => Reader.access fuel target) middle result after)
    (ends : after.Ends) : Gives surroundings Reader.expr before result after :=
  .of_succ (fun fuel => by rw [Reader.expr]) (operand.bind (binary_access suffixes ends))

theorem expr_primary (operand : Gives surroundings Reader.primary before result after)
    (ends : after.Ends) : Gives surroundings Reader.expr before result after :=
  expr_access operand (access_stop ends.stops.noIndex ends.stops.noField) ends

/-- Two operands with an operator between them are an expression. -/
theorem expr_operator {left right joined : Expr} {operator : Operator}
    (first : Gives surroundings Reader.primary before left middle)
    (isHere : middle.current.lexeme = .operator operator.spelling)
    (moves : Reader.next surroundings middle = .ok () moved)
    (second : Gives surroundings Reader.primary moved right after) (ends : after.Ends)
    (joins : Reader.join middle.current.line operator left right surroundings after =
      .ok joined after) : Gives surroundings Reader.expr before joined after := by
  refine .of_succ (fun fuel => by rw [Reader.expr]) (first.bind ?_)
  refine .of_succ (fun fuel => by rw [Reader.binary]) ?_
  have noSuffix : Gives surroundings (fun fuel => Reader.access fuel left) middle left middle :=
    access_stop (by simp [Token.isChar, isHere]) (by simp [Token.isChar, isHere])
  refine noSuffix.bind (.step (Reader.operator?_eq surroundings middle) ?_)
  have named : middle.operator? = some operator := by
    simp [Reading.operator?, isHere, Operator.ofSpelling?_spelling]
  rw [named]
  simp only [Nat.not_lt_zero, if_false]
  refine .line (.step moves (second.bind ?_))
  refine (access_stop ends.stops.noIndex ends.stops.noField).bind ?_
  refine .step (Reader.bindsTighter_eq _ surroundings after) ?_
  rw [ends.operator?_eq]
  simp only [Option.any_none, Bool.false_eq_true, if_false]
  refine .step (rfl : (pure right : Reader Expr) surroundings after = .ok right after) ?_
  refine .step (Reader.bindsEqually_eq _ surroundings after) ?_
  rw [ends.operator?_eq]
  simp only [Option.any_none, Bool.false_eq_true, if_false]
  exact .step joins (binary_access (access_stop ends.stops.noIndex ends.stops.noField) ends)

theorem primary_literal {lexeme : Lexeme} (isHere : before.current.lexeme = lexeme)
    (moves : Reader.next surroundings before = .ok () after)
    (literal : (∃ value, lexeme = .boolean value ∧ result = .boolean before.current.line value) ∨
      (∃ spelling value, lexeme = .number spelling value ∧
        result = .number before.current.line value) ∨
      ∃ value, lexeme = .string value ∧ result = .string before.current.line value) :
    Gives surroundings Reader.primary before result after := by
  refine .of_succ (fun fuel => by rw [Reader.primary]) (.line (.current ?_))
  rw [isHere]
  rcases literal with ⟨value, rfl, rfl⟩ | ⟨spelling, value, rfl, rfl⟩ | ⟨value, rfl, rfl⟩
  · exact .step moves (.of_ok rfl)
  · exact .step moves (.of_ok rfl)
  · exact .step moves (.of_ok rfl)

theorem primary_enclosed {inside : Reading} (isHere : before.current.lexeme = .char '(')
    (moves : Reader.next surroundings before = .ok () inside)
    (inner : Gives surroundings Reader.expr inside result middle)
    (closes : middle.current.lexeme = .char ')')
    (leaves : Reader.next surroundings middle = .ok () after) :
    Gives surroundings Reader.primary before result after := by
  refine .of_succ (fun fuel => by rw [Reader.primary]) (.line (.current ?_))
  rw [isHere]
  exact .step moves (inner.bind (.passChar closes leaves (.of_ok rfl)))

theorem primary_unary {operator : Operator} {operand : Expr} (isUnary : operator.isUnary = true)
    (isHere : before.current.lexeme = .operator operator.spelling)
    (moves : Reader.next surroundings before = .ok () moved)
    (inner : Gives surroundings Reader.primary moved operand after) (ends : after.Ends) :
    Gives surroundings Reader.primary before (.unary before.current.line operator operand)
      after := by
  refine .of_succ (fun fuel => by rw [Reader.primary]) (.line (.current ?_))
  rw [isHere]
  simp only [Operator.ofSpelling?_spelling, isUnary, if_true]
  refine .step moves (inner.bind ?_)
  exact (access_stop ends.stops.noIndex ends.stops.noField).bind (.of_ok rfl)

theorem primary_named (isHere : before.current.lexeme = .identifier name)
    (moves : Reader.next surroundings before = .ok () moved) (continues : Gives surroundings
      (fun fuel => Reader.named fuel before.current.line name) moved result after) :
    Gives surroundings Reader.primary before result after := by
  refine .of_succ (fun fuel => by rw [Reader.primary]) (.line (.current ?_))
  rw [isHere]
  exact .step moves continues

/-! ### What names start -/

theorem named_own {line : Nat} {name : String} {result : Expr}
    (noScope : before.current.lexeme ≠ .scope)
    (continues : Gives surroundings (fun fuel => do
        if before.signatures.contains (Name.ofType surroundings.module.id name) then
          Reader.entity fuel line (Name.ofType surroundings.module.id name) name
        else if ← Reader.atChar '(' then
          Reader.call fuel line (Name.ofFunction surroundings.module.id name)
        else return .identifier line name) before result after) :
    Gives surroundings (fun fuel => Reader.named fuel line name) before result after := by
  refine .of_succ (fun fuel => by rw [Reader.named]) ?_
  refine .step (rfl : (read : Reader _) surroundings before = .ok surroundings before) (.current ?_)
  simp only [noScope, if_false]
  exact .step (rfl : (get : Reader _) surroundings before = .ok before before) continues

theorem named_identifier {line : Nat} (follows : before.Follows)
    (noEntity : before.signatures.contains (Name.ofType surroundings.module.id name) = false) :
    Gives surroundings (fun fuel => Reader.named fuel line name) before (.identifier line name)
      before := by
  apply named_own follows.noScope
  simp only [noEntity, Bool.false_eq_true, if_false]
  exact .atChar false follows.noCall (.of_ok rfl)

theorem named_call {line : Nat} {name : String} {result : Expr}
    (isHere : before.current.lexeme = .char '(')
    (noEntity : before.signatures.contains (Name.ofType surroundings.module.id name) = false)
    (continues : Gives surroundings (fun fuel => Reader.call fuel line
      (Name.ofFunction surroundings.module.id name)) before result after) :
    Gives surroundings (fun fuel => Reader.named fuel line name) before result after := by
  apply named_own (by simp [isHere])
  simp only [noEntity, Bool.false_eq_true, if_false]
  exact .onChar isHere continues

theorem named_entity {line : Nat} {name : String} {result : Expr}
    (isHere : before.current.lexeme = .char '(')
    (isEntity : before.signatures.contains (Name.ofType surroundings.module.id name) = true)
    (continues : Gives surroundings (fun fuel => Reader.entity fuel line
      (Name.ofType surroundings.module.id name) name) before result after) :
    Gives surroundings (fun fuel => Reader.named fuel line name) before result after := by
  apply named_own (by simp [isHere])
  simp only [isEntity, if_true]
  exact continues

theorem named_foreign {line : Nat} {localName symbol : String} {result : Expr} {named : Reading}
    {found : Option (List String)}
    (known : surroundings.module.hasDependency localName = true)
    (isScope : before.current.lexeme = .scope)
    (moves : Reader.next surroundings before = .ok () named)
    (isSymbol : named.current.lexeme = .identifier symbol)
    (passes : Reader.next surroundings named = .ok () moved)
    (opens : moved.current.lexeme = .char '(')
    (isFound : surroundings.signature? moved.signatures
      (Name.ofForeignType surroundings.module.id localName symbol) = .ok found)
    (continues : Gives surroundings (fun fuel =>
      if found.isSome then do
        Reader.entity fuel line
          (← Reader.canonical (Name.ofForeignType surroundings.module.id localName symbol)) symbol
      else Reader.call fuel line (Name.ofForeignFunction surroundings.module.id localName symbol))
      moved result after) :
    Gives surroundings (fun fuel => Reader.named fuel line localName) before result after := by
  refine .of_succ (fun fuel => by rw [Reader.named]) ?_
  refine .step (rfl : (read : Reader _) surroundings before = .ok surroundings before) (.current ?_)
  simp only [isScope, if_true]
  have reads : Reader.foreignSymbol localName surroundings before = .ok symbol moved := by
    rw [Reader.foreignSymbol,
      Reader.bind_ok (rfl : (read : Reader _) surroundings before = .ok surroundings before)]
    simp only [known, Bool.not_true, Bool.false_eq_true, if_false]
    rw [Reader.bind_ok moves, Reader.identifier_eq isSymbol passes]
  refine .step reads ?_
  have looks : Reader.signature? (Name.ofForeignType surroundings.module.id localName symbol)
      surroundings moved = .ok found moved := by
    change Reader.ask (surroundings.signature? moved.signatures _) surroundings moved = _
    rw [isFound]
    rfl
  refine .step looks ?_
  cases found with
  | some signature => exact continues
  | none => exact .onChar opens continues

end Gives

end Kronk.Source
