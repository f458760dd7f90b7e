import Mathlib.Data.List.TakeWhile
import Kronk.Proofs.Correspondence
import Kronk.Proofs.Grouping

/-!
# Precedence climbing reads flat expressions

From a reading where operands and operators alternate, up to a token that continues neither, the
reader of expressions passes over exactly these tokens and gives the tree of the flat expression.
-/

namespace Kronk

theorem Operator.ofSpelling?_spelling (operator : Operator) :
    Operator.ofSpelling? operator.spelling = some operator := by
  cases operator <;> decide

namespace Source

open Grouping

variable {surroundings : Surroundings} {before after : Reading} {count : Nat}

theorem Reader.bind_ok {α β : Type} {reader : Reader α} {next : α → Reader β} {value : α}
    (result : reader surroundings before = .ok value after) :
    (reader >>= next) surroundings before = next value surroundings after := by
  change EStateM.bind (reader surroundings) (fun value => next value surroundings) before = _
  simp only [EStateM.bind, result]

theorem Reader.bind_error {α β : Type} {reader : Reader α} {next : α → Reader β}
    {failure : Failure} (result : reader surroundings before = .error failure after) :
    (reader >>= next) surroundings before = .error failure after := by
  change EStateM.bind (reader surroundings) (fun value => next value surroundings) before = _
  simp only [EStateM.bind, result]

/-- With enough fuel an operand with its prefixes and suffixes is read. -/
def Takes (surroundings : Surroundings) (before : Reading) (operand : Expr) (after : Reading) :
    Prop :=
  ∃ enough, ∀ fuel, enough ≤ fuel →
    (Reader.primary fuel >>= Reader.access fuel) surroundings before = .ok operand after

/-- The token the reading stands at is no operator and starts no suffix. -/
structure Reading.Stops (reading : Reading) : Prop where
  noOperator : ∀ operator : Operator, reading.current.lexeme ≠ .operator operator.spelling
  noIndex : reading.current.isChar '[' = false
  noField : reading.current.isChar '.' = false

/-- From one reading to another there are operators, each with an operand behind it, and then there
is no further one. -/
inductive Continues (surroundings : Surroundings) : Reading → List Step → Reading → Prop
  | stop {reading : Reading} : reading.Stops → Continues surroundings reading [] reading
  | step {before moved next final : Reading} {operator : Operator} {operand : Expr}
      {steps : List Step} :
      before.current.lexeme = .operator operator.spelling →
      Reader.next surroundings before = .ok () moved →
      Takes surroundings moved operand next →
      Continues surroundings next steps final →
      Continues surroundings before (⟨operator, before.current.line, operand⟩ :: steps) final

def Reading.operator? (reading : Reading) : Option Operator :=
  match reading.current.lexeme with
  | .operator spelling => Operator.ofSpelling? spelling
  | _ => none

theorem Reader.operator?_eq (surroundings : Surroundings) (reading : Reading) :
    Reader.operator? surroundings reading = .ok reading.operator? reading := by
  change (match reading.current.lexeme with
    | .operator spelling => pure (Operator.ofSpelling? spelling)
    | _ => pure none : Reader (Option Operator)) surroundings reading = _
  unfold Reading.operator?
  cases reading.current.lexeme <;> rfl

theorem Reader.bindsTighter_eq (precedence : Nat) (surroundings : Surroundings)
    (reading : Reading) : Reader.bindsTighter precedence surroundings reading =
      .ok (reading.operator?.any fun operator => precedence < operator.precedence) reading := by
  rw [bindsTighter, bind_ok (operator?_eq surroundings reading)]
  rfl

theorem Reader.bindsEqually_eq (precedence : Nat) (surroundings : Surroundings)
    (reading : Reading) : Reader.bindsEqually precedence surroundings reading =
      .ok (reading.operator?.any fun operator => precedence = operator.precedence) reading := by
  rw [bindsEqually, bind_ok (operator?_eq surroundings reading)]
  rfl

theorem Reader.access_eq {surroundings : Surroundings} {reading : Reading}
    (noIndex : reading.current.isChar '[' = false) (noField : reading.current.isChar '.' = false)
    (fuel : Nat) (target : Expr) :
    Reader.access (fuel + 1) target surroundings reading = .ok target reading := by
  have atIndex : Reader.atChar '[' surroundings reading = .ok false reading :=
    congrArg (EStateM.Result.ok · reading) noIndex
  have atField : Reader.atChar '.' surroundings reading = .ok false reading :=
    congrArg (EStateM.Result.ok · reading) noField
  rw [Reader.access, Reader.bind_ok (rfl : Reader.line surroundings reading = .ok _ reading),
    Reader.bind_ok atIndex]
  simp only [Bool.false_eq_true, if_false]
  rw [Reader.bind_ok atField]
  rfl

namespace Continues

variable {surroundings : Surroundings} {reading final : Reading} {steps : List Step}

/-- The reading stands at the operator of the first step. -/
theorem operator?_eq (continues : Continues surroundings reading steps final) :
    reading.operator? = steps.head?.map Step.operator := by
  cases continues with
  | stop stops =>
    unfold Reading.operator?
    split
    · rename_i spelling named
      cases found : Operator.ofSpelling? spelling with
      | none => rfl
      | some operator =>
        have spelled := List.find?_some found
        have same : operator.spelling = spelling := by simpa using spelled
        exact absurd (same ▸ named) (stops.noOperator operator)
    · rfl
  | step named _ _ _ => simp [Reading.operator?, named, Operator.ofSpelling?_spelling]

theorem access_eq (continues : Continues surroundings reading steps final) (fuel : Nat)
    (target : Expr) :
    Reader.access (fuel + 1) target surroundings reading = .ok target reading := by
  cases continues with
  | stop stops => exact Reader.access_eq stops.noIndex stops.noField fuel target
  | step named _ _ _ =>
    apply Reader.access_eq
    · simp [Token.isChar, named]
    · simp [Token.isChar, named]

end Continues

/-- An operand is read with any fuel that is enough for the tokens. -/
theorem Takes.reads {operand : Expr} {fuel other : Nat}
    (takes : Takes surroundings before operand after) (within : before.Within count)
    (enoughFuel : 6 * count + 1 ≤ fuel) (enoughOther : 6 * count + 1 ≤ other) :
    (Reader.primary fuel >>= Reader.access other) surroundings before = .ok operand after ∧
      after.Within count := by
  obtain ⟨least, reads⟩ := takes
  have more : 6 * count + 1 ≤ max least (6 * count + 1) := Nat.le_max_right _ _
  have expressions := (Setting.steady surroundings).expressions
  have operandRead : (Setting.steady surroundings).Reads [] count _ _ _ :=
    ((expressions fuel _).primary (.inr ⟨trivial, enoughFuel, more⟩)).kept.bind fun _ =>
      .given fun known => (expressions other _).access known (.inr ⟨trivial, enoughOther, more⟩)
  obtain ⟨same, reached⟩ := operandRead.steady within.holds
  have result := same.symm.trans (reads _ (Nat.le_max_left _ _))
  rw [result] at reached
  exact ⟨result, reached.1.within trivial⟩

/-- A name that is no entity, with no call and no suffix behind it, is an operand. -/
theorem Takes.identifier {surroundings : Surroundings} {before moved : Reading} {name : String}
    (named : before.current.lexeme = .identifier name)
    (moves : Reader.next surroundings before = .ok () moved)
    (noEntity : moved.signatures.contains (Name.ofType surroundings.module.id name) = false)
    (noScope : moved.current.lexeme ≠ .scope) (noCall : moved.current.isChar '(' = false)
    (noIndex : moved.current.isChar '[' = false) (noField : moved.current.isChar '.' = false) :
    Takes surroundings before (.identifier before.current.line name) moved := by
  refine ⟨2, fun fuel more => ?_⟩
  obtain ⟨less, rfl⟩ := Nat.exists_eq_add_of_le' more
  have isCurrent : Reader.current surroundings before = .ok before.current before := rfl
  have atCall : Reader.atChar '(' surroundings moved = .ok false moved :=
    congrArg (EStateM.Result.ok · moved) noCall
  have reads : Reader.primary (less + 2) surroundings before =
      .ok (.identifier before.current.line name) moved := by
    rw [Reader.primary, Reader.bind_ok (rfl : Reader.line surroundings before = .ok _ before),
      Reader.bind_ok isCurrent, named]
    change (Reader.next >>= fun _ => Reader.named (less + 1) before.current.line name)
      surroundings before = _
    rw [Reader.bind_ok moves, Reader.named,
      Reader.bind_ok (rfl : (read : Reader _) surroundings moved = .ok surroundings moved),
      Reader.bind_ok (rfl : Reader.current surroundings moved = .ok moved.current moved)]
    simp only [noScope, if_false]
    rw [Reader.bind_ok (rfl : (get : Reader _) surroundings moved = .ok moved moved)]
    simp only [noEntity, Bool.false_eq_true, if_false]
    rw [Reader.bind_ok atCall]
    rfl
  rw [Reader.bind_ok reads, Reader.access_eq noIndex noField]

theorem Reading.Within.next {moved : Reading} (within : before.Within count)
    (solid : before.current.IsSolid) (moves : Reader.next surroundings before = .ok () moved) :
    moved.Within (count - 1) ∧ 0 < count := by
  have starts : (Setting.steady surroundings).Pairs _ Reader.next Reader.next fun _ =>
      (Setting.steady surroundings).Passed [] count :=
    Setting.Pairs.nextAt solid
  have reached := (starts.steady ⟨within.holds, rfl⟩).2
  rw [moves] at reached
  obtain ⟨fewer, less, holds⟩ := reached
  have isLess := less trivial
  exact ⟨(holds.within trivial).mono (by omega), by omega⟩

/-- The failure of an assignment to something that is no target. -/
def Reading.noTarget (surroundings : Surroundings) (reading : Reading) : Failure :=
  Failure.atLine .parse surroundings.file reading.current.line
    "Invalid expression on the left hand side of assigment"

/-- A reader gives a tree where the rest of a flat expression follows; if there is no tree, it fails
at the end. -/
def Answers (surroundings : Surroundings) (count : Nat) (final : Reading)
    (answer : EStateM.Result Failure Reading Expr) (tree : Option Expr) (rest : List Step) : Prop :=
  match tree with
  | some tree => ∃ reached, answer = .ok tree reached ∧
    Continues surroundings reached rest final ∧ reached.Within count
  | none => answer = .error (final.noTarget surroundings) final

namespace Answers

variable {surroundings : Surroundings} {count : Nat} {final before : Reading} {rest : List Step}

theorem here {tree : Expr} (continues : Continues surroundings before rest final)
    (within : before.Within count) :
    Answers surroundings count final (.ok tree before) (some tree) rest :=
  ⟨before, rfl, continues, within⟩

theorem mono {greater : Nat} {answer : EStateM.Result Failure Reading Expr} {tree : Option Expr}
    (answers : Answers surroundings count final answer tree rest) (fewer : count ≤ greater) :
    Answers surroundings greater final answer tree rest := by
  cases tree with
  | none => exact answers
  | some tree =>
    obtain ⟨reached, result, continues, within⟩ := answers
    exact ⟨reached, result, continues, within.mono fewer⟩

theorem bind {reader : Reader Expr} {next : Expr → Reader Expr} {tree : Option Expr}
    {following : Expr → Option Expr} {later : List Step}
    (answers : Answers surroundings count final (reader surroundings before) tree rest)
    (continues : ∀ value reached, Continues surroundings reached rest final → reached.Within count →
      Answers surroundings count final (next value surroundings reached) (following value) later) :
    Answers surroundings count final ((reader >>= next) surroundings before) (tree.bind following)
      later := by
  cases tree with
  | none =>
    have failed : reader surroundings before = _ := answers
    rw [Reader.bind_error failed]
    rfl
  | some tree =>
    obtain ⟨reached, result, goesOn, within⟩ := answers
    rw [Reader.bind_ok result]
    exact continues tree reached goesOn within

/-- Joining fails only at the end, since nothing follows the right operand of an assignment. -/
theorem join {step : Step} {left right : Expr}
    (continues : Continues surroundings before rest final) (within : before.Within count)
    (last : step.operator = .assign → rest = []) : Answers surroundings count final
      (Reader.join step.line step.operator left right surroundings before)
      (step.joined? left right) rest := by
  unfold Reader.join Step.joined?
  by_cases assigns : step.operator = .assign
  · rw [if_pos assigns, if_pos assigns]
    by_cases isTarget : left.isTarget = true
    · rw [if_pos isTarget, if_pos isTarget]
      exact here continues within
    · rw [if_neg isTarget, if_neg isTarget]
      rw [last assigns] at continues
      cases continues
      rfl
  · rw [if_neg assigns, if_neg assigns]
    exact here continues within

end Answers

/-- The steps from the first on that bind at least as tightly as `minimum`. -/
def tighter (minimum : Nat) (steps : List Step) : List Step :=
  steps.takeWhile fun step => minimum ≤ step.precedence

/-- The steps from the first on that binds less tightly than `minimum`. -/
def looser (minimum : Nat) (steps : List Step) : List Step :=
  steps.dropWhile fun step => minimum ≤ step.precedence

section

variable {minimum precedence : Nat} {steps : List Step}

variable {step : Step}

theorem le_of_mem_tighter (member : step ∈ tighter minimum steps) : minimum ≤ step.precedence := by
  have passes := List.all_eq_true.mp List.all_takeWhile step member
  simpa using passes

theorem lt_of_mem_head?_looser (member : step ∈ (looser minimum steps).head?) :
    step.precedence < minimum := by
  have stops :=
    List.head?_dropWhile_not (fun step : Step => decide (minimum ≤ step.precedence)) steps
  have found : (looser minimum steps).head? = some step := member
  rw [looser] at found
  rw [found] at stops
  simpa using stops

theorem head?_of_mem_head?_tighter (member : step ∈ (tighter minimum steps).head?) :
    step ∈ steps.head? := by
  cases steps with
  | nil => cases member
  | cons first rest =>
    by_cases tight : minimum ≤ first.precedence
    · simpa [tighter, tight] using member
    · simp [tighter, tight] at member

/-- A looser bound passes over the steps of a tighter one first. -/
theorem tighter_eq_append (less : minimum ≤ precedence) (steps : List Step) :
    tighter minimum steps = tighter precedence steps ++ tighter minimum (looser precedence steps) ∧
      looser minimum steps = looser minimum (looser precedence steps) := by
  induction steps with
  | nil => exact ⟨rfl, rfl⟩
  | cons step rest ih =>
    by_cases tight : precedence ≤ step.precedence
    · have above : minimum ≤ step.precedence := Nat.le_trans less tight
      simpa [tighter, looser, tight, above] using ih
    · simp [tighter, looser, tight]

variable {step : Step} {rest : List Step} {left : Expr}

/-- The operand behind an operator takes the operators that bind tighter. -/
theorem reference_cons (tight : minimum ≤ step.precedence) :
    reference left (step :: tighter minimum rest) =
      (reference step.operand (tighter (step.precedence + 1) rest)).bind fun operand =>
        reference left
          ({ step with operand := operand } :: tighter minimum
            (looser (step.precedence + 1) rest)) := by
  rw [(tighter_eq_append (Nat.le_succ_of_le tight) rest).1, ← List.cons_append]
  unfold reference
  apply grouped_cons (covers_levels _)
  · intro other member
    exact le_of_mem_tighter member
  · intro next isHead
    have loose := lt_of_mem_head?_looser (head?_of_mem_head?_tighter isHead)
    omega

private theorem reference_step (loosely : ∀ next ∈ rest.head?, next.precedence < step.precedence ∨
      next.precedence = step.precedence ∧ step.operator.isRightAssociative = false ∧
        step.operator.isRelational = false) : reference left (step :: tighter minimum rest) =
      (step.joined? left step.operand).bind fun joined =>
        reference joined (tighter minimum rest) := by
  unfold reference
  apply grouped_step (covers_levels _)
  intro next isHead
  exact loosely next (head?_of_mem_head?_tighter isHead)

/-- A chain of one precedence ends before the operators that bind less tightly. -/
theorem reference_chain (tight : minimum ≤ step.precedence) :
    reference left (step :: tighter minimum rest) =
      (reference left (step :: tighter step.precedence rest)).bind fun joined =>
        reference joined (tighter minimum (looser step.precedence rest)) := by
  rw [(tighter_eq_append tight rest).1, ← List.cons_append]
  unfold reference
  apply grouped_append (covers_levels _)
  intro other member next isHead
  have loose := lt_of_mem_head?_looser (head?_of_mem_head?_tighter isHead)
  rcases List.mem_cons.mp member with rfl | inside
  · exact loose
  · exact Nat.lt_of_lt_of_le loose (le_of_mem_tighter inside)

/-- No operator binds less tightly than an assignment. -/
theorem eq_nil_of_assign (assigns : step.operator = .assign)
    (loosely : ∀ next ∈ rest.head?, next.precedence < step.precedence) : rest = [] := by
  cases rest with
  | nil => rfl
  | cons next others =>
    have less : next.precedence < step.precedence := loosely next rfl
    have least := next.operator.assign_precedence_le
    rw [Step.precedence, Step.precedence, assigns] at less
    omega

theorem chain_tighter (equally : ∀ next ∈ rest.head?, next.precedence = step.precedence) :
    Chain step (tighter step.precedence rest) := by
  constructor
  · intro next isHead
    exact equally next (head?_of_mem_head?_tighter isHead)
  · intro other member
    exact le_of_mem_tighter member

end

namespace Reader

/-- Reads the operators behind an operand that bind tighter than the operator before it. -/
def rightOperand (fuel : Nat) (step : Step) : Reader Expr := do
  if ← bindsTighter step.precedence then binary fuel (step.precedence + 1) step.operand
  else pure step.operand

/-- Joins an operator whose right operand is complete to what stands on its left, and goes on. -/
def complete (fuel minimum : Nat) (left : Expr) (step : Step) : Reader Expr := do
  if ← bindsEqually step.precedence then
    if step.operator.isRightAssociative then
      let right ← binary fuel step.precedence step.operand
      binary fuel minimum (← join step.line step.operator left right)
    else if step.operator.isRelational then
      let first ← join step.line step.operator left step.operand
      let later ← binary fuel step.precedence step.operand
      binary fuel minimum (.binary step.line .and first later)
    else binary fuel minimum (← join step.line step.operator left step.operand)
  else binary fuel minimum (← join step.line step.operator left step.operand)

theorem binary_eq_complete {surroundings : Surroundings} {before moved next : Reading}
    {operator : Operator} {operand left : Expr} {fuel minimum : Nat} {steps : List Step}
    {final : Reading} (continues : Continues surroundings before steps final)
    (named : before.operator? = some operator) (tight : minimum ≤ operator.precedence)
    (moves : Reader.next surroundings before = .ok () moved)
    (takes : (primary (fuel + 1) >>= access (fuel + 1)) surroundings moved = .ok operand next) :
    binary (fuel + 2) minimum left surroundings before =
      (do
        let right ← rightOperand (fuel + 1) ⟨operator, before.current.line, operand⟩
        complete (fuel + 1) minimum left ⟨operator, before.current.line, right⟩)
        surroundings next := by
  rw [binary, bind_ok (continues.access_eq fuel left), bind_ok (operator?_eq surroundings before),
    named]
  simp only [Nat.not_lt.mpr tight, if_false]
  obtain ⟨binds, found⟩ : ∃ binds, bindsTighter operator.precedence surroundings next =
      .ok binds next := ⟨_, bindsTighter_eq _ _ next⟩
  have same : bindsTighter (⟨operator, before.current.line, operand⟩ : Step).precedence
      surroundings next = .ok binds next := found
  rw [bind_ok (rfl : line surroundings before = .ok before.current.line before), bind_ok moves,
    ← bind_assoc, bind_ok takes, bind_ok found, rightOperand, bind_assoc, bind_ok same]
  cases binds <;> rfl

end Reader

/-- The operators that bind at least as tightly as a bound are read with their operands, and they
group as the grammar says. -/
def Climbs (surroundings : Surroundings) (fuel count : Nat) : Prop :=
  ∀ minimum left before steps final, Continues surroundings before steps final →
    before.Within count →
    Answers surroundings count final (Reader.binary fuel minimum left surroundings before)
      (reference left (tighter minimum steps)) (looser minimum steps)

namespace Climbs

variable {surroundings : Surroundings} {fuel count minimum : Nat} {before final : Reading}
  {left : Expr} {step : Step} {rest : List Step}

variable (climbs : Climbs surroundings fuel count)
 (continues : Continues surroundings before rest final) (within : before.Within count)

include climbs continues within

theorem rightOperand : Answers surroundings count final
      (Reader.rightOperand fuel step surroundings before)
      (reference step.operand (tighter (step.precedence + 1) rest))
      (looser (step.precedence + 1) rest) := by
  rw [Reader.rightOperand, Reader.bind_ok (Reader.bindsTighter_eq _ _ _), continues.operator?_eq]
  split
  · exact climbs _ _ _ _ _ continues within
  · rename_i notTighter
    have nothing : tighter (step.precedence + 1) rest = [] ∧
        looser (step.precedence + 1) rest = rest := by
      cases rest with
      | nil => exact ⟨rfl, rfl⟩
      | cons next later =>
        have loose : ¬decide (step.precedence + 1 ≤ next.precedence) = true := by
          intro tight
          exact notTighter tight
        exact ⟨List.takeWhile_cons_of_neg loose, List.dropWhile_cons_of_neg loose⟩
    rw [nothing.1, nothing.2, reference, grouped_nil]
    exact Answers.here continues within

theorem join (last : step.operator = .assign → rest = []) {right : Expr} :
    Answers surroundings count final
      ((Reader.join step.line step.operator left right >>= Reader.binary fuel minimum)
        surroundings before)
      ((step.joined? left right).bind fun joined => reference joined (tighter minimum rest))
      (looser minimum rest) := by
  apply (Answers.join continues within last).bind
  intro joined reached goesOn stillWithin
  exact climbs _ _ _ _ _ goesOn stillWithin

theorem rightAssociative
    (tight : minimum ≤ step.precedence) (right : step.operator.isRightAssociative = true)
    (equally : ∀ next ∈ rest.head?, next.precedence = step.precedence) :
    Answers surroundings count final
      ((do
        let right ← Reader.binary fuel step.precedence step.operand
        Reader.binary fuel minimum (← Reader.join step.line step.operator left right) :
          Reader Expr) surroundings before)
      (reference left (step :: tighter minimum rest)) (looser minimum rest) := by
  have grouping : reference left (step :: tighter step.precedence rest) =
      (reference step.operand (tighter step.precedence rest)).bind (step.joined? left) := by
    unfold reference
    exact grouped_right (covers_levels _) (chain_tighter equally) right
  rw [reference_chain tight, grouping, Option.bind_assoc, (tighter_eq_append tight rest).2]
  apply (climbs _ _ _ _ _ continues within).bind
  intro later reached goesOn stillWithin
  apply climbs.join goesOn stillWithin
  intro assigns
  apply eq_nil_of_assign assigns
  intro next isHead
  exact lt_of_mem_head?_looser isHead

theorem relational
    (tight : minimum ≤ step.precedence) (compares : step.operator.isRelational = true)
    (equally : ∀ next ∈ rest.head?, next.precedence = step.precedence) (more : rest ≠ []) :
    Answers surroundings count final
      ((do
        let first ← Reader.join step.line step.operator left step.operand
        let later ← Reader.binary fuel step.precedence step.operand
        Reader.binary fuel minimum (.binary step.line .and first later) : Reader Expr)
          surroundings before)
      (reference left (step :: tighter minimum rest)) (looser minimum rest) := by
  have some : tighter step.precedence rest ≠ [] := by
    cases rest with
    | nil => exact absurd rfl more
    | cons next others => simp [tighter, equally next rfl]
  have grouping : reference left (step :: tighter step.precedence rest) =
      (reference step.operand (tighter step.precedence rest)).map
        (.binary step.line .and (.binary step.line step.operator left step.operand)) := by
    unfold reference
    exact grouped_relational (covers_levels _) (chain_tighter equally) some compares
  have notAssign : step.operator ≠ .assign := by
    intro assigns
    simp [assigns, Operator.isRelational] at compares
  have joins : Reader.join step.line step.operator left step.operand surroundings before =
      .ok (.binary step.line step.operator left step.operand) before := by
    rw [Reader.join, if_neg notAssign]
    rfl
  rw [reference_chain tight, grouping, (tighter_eq_append tight rest).2, Reader.bind_ok joins,
    Option.map_eq_bind, Option.bind_assoc]
  apply (climbs _ _ _ _ _ continues within).bind
  intro later reached goesOn stillWithin
  exact climbs _ _ _ _ _ goesOn stillWithin

/-- Once its right operand is complete, an operator is joined to what stands on its left. -/
theorem complete (tight : minimum ≤ step.precedence)
    (loosely : ∀ next ∈ rest.head?, next.precedence ≤ step.precedence) :
    Answers surroundings count final (Reader.complete fuel minimum left step surroundings before)
      (reference left (step :: tighter minimum rest)) (looser minimum rest) := by
  rw [Reader.complete, Reader.bind_ok (Reader.bindsEqually_eq _ _ _), continues.operator?_eq]
  split
  · rename_i isEqual
    obtain ⟨next, others, rfl⟩ : ∃ next others, rest = next :: others := by
      cases rest with
      | nil => cases isEqual
      | cons next others => exact ⟨next, others, rfl⟩
    have equally : ∀ other ∈ (next :: others).head?, other.precedence = step.precedence := by
      rintro other ⟨⟩
      exact (of_decide_eq_true isEqual).symm
    split
    · exact climbs.rightAssociative continues within tight ‹_› equally
    · split
      · exact climbs.relational continues within tight ‹_› equally (List.cons_ne_nil _ _)
      · rename_i notRight notRelational
        have left := Bool.eq_false_iff.mpr notRight
        rw [reference_step fun other isHead =>
          .inr ⟨equally other isHead, left, Bool.eq_false_iff.mpr notRelational⟩]
        apply climbs.join continues within
        intro assigns
        simp [assigns, Operator.isRightAssociative] at left
  · rename_i notEqual
    have less : ∀ next ∈ rest.head?, next.precedence < step.precedence := by
      intro next isHead
      apply Nat.lt_of_le_of_ne (loosely next isHead)
      intro same
      cases rest with
      | nil => cases isHead
      | cons first others =>
        cases isHead
        exact notEqual (decide_eq_true same.symm)
    rw [reference_step fun next isHead => .inl (less next isHead)]
    exact climbs.join continues within fun assigns => eq_nil_of_assign assigns less

theorem operator (tight : minimum ≤ step.precedence) : Answers surroundings count final
      ((do
        let right ← Reader.rightOperand fuel step
        Reader.complete fuel minimum left { step with operand := right } : Reader Expr)
          surroundings before)
      (reference left (tighter minimum (step :: rest))) (looser minimum (step :: rest)) := by
  have passes : tighter minimum (step :: rest) = step :: tighter minimum rest ∧
      looser minimum (step :: rest) = looser minimum rest := by
    simp [tighter, looser, tight]
  rw [passes.1, passes.2, reference_cons tight,
    (tighter_eq_append (Nat.le_succ_of_le tight) rest).2]
  apply (climbs.rightOperand continues within).bind
  intro right reached goesOn stillWithin
  have stillTight : minimum ≤ ({ step with operand := right } : Step).precedence := tight
  apply climbs.complete goesOn stillWithin stillTight
  intro next isHead
  exact Nat.le_of_lt_succ (lt_of_mem_head?_looser isHead)

end Climbs

/-- With enough fuel for the tokens the reader climbs. -/
theorem climbs (surroundings : Surroundings) (fuel count : Nat)
    (enoughFuel : 6 * count + 2 ≤ fuel) :
    Climbs surroundings fuel count := by
  induction fuel generalizing count with
  | zero => omega
  | succ fuel ih =>
    obtain ⟨less, rfl⟩ : ∃ less, fuel = less + 1 := ⟨fuel - 1, by omega⟩
    intro minimum left before steps final continues within
    have access := continues.access_eq less left
    cases continues with
    | stop stops =>
      have whole : Continues surroundings before [] before := .stop stops
      rw [Reader.binary, Reader.bind_ok access,
        Reader.bind_ok (Reader.operator?_eq surroundings before), whole.operator?_eq]
      change Answers _ _ _ _ (reference left []) []
      rw [reference, grouped_nil]
      exact Answers.here whole within
    | @step _ moved next _ operator operand later named moves takes goesOn =>
      have whole : Continues surroundings before
          (⟨operator, before.current.line, operand⟩ :: later) final :=
        .step named moves takes goesOn
      by_cases tight : minimum ≤ operator.precedence
      · have solid : before.current.IsSolid := by simp [Token.IsSolid, Token.isEnd, named]
        obtain ⟨movedWithin, positive⟩ := within.next solid moves
        have enoughLess : 6 * (count - 1) + 1 ≤ less + 1 := by omega
        obtain ⟨reads, nextWithin⟩ := takes.reads movedWithin enoughLess enoughLess
        have climbing := ih (count - 1) (by omega)
        rw [Reader.binary_eq_complete whole whole.operator?_eq tight moves reads]
        exact (climbing.operator goesOn nextWithin tight).mono (Nat.sub_le _ _)
      · have nothing : tighter minimum (⟨operator, before.current.line, operand⟩ :: later) = [] ∧
            looser minimum (⟨operator, before.current.line, operand⟩ :: later) =
              ⟨operator, before.current.line, operand⟩ :: later := by
          simp [tighter, looser, Step.precedence, tight]
        rw [nothing.1, nothing.2, reference, grouped_nil, Reader.binary, Reader.bind_ok access,
          Reader.bind_ok (Reader.operator?_eq surroundings before), whole.operator?_eq]
        simp only [List.head?_cons, Option.map_some, Nat.lt_of_not_le tight, if_true]
        exact Answers.here whole within

/-- An expression is its first operand and the operators behind it. -/
theorem expr_eq_binary {middle : Reading} {first : Expr} {steps : List Step} {fuel : Nat}
    (takes : Takes surroundings before first middle)
    (continues : Continues surroundings middle steps after) (within : before.Within count)
    (enoughFuel : 6 * count ≤ fuel) : Reader.expr (fuel + 3) surroundings before =
      Reader.binary (fuel + 2) 0 first surroundings middle ∧ middle.Within count := by
  obtain ⟨reads, middleWithin⟩ := takes.reads within (by omega : 6 * count + 1 ≤ fuel + 2)
    (by omega : 6 * count + 1 ≤ fuel + 1)
  obtain ⟨operators, binary_eq⟩ : ∃ operators : Expr → Reader Expr, ∀ left,
      Reader.binary (fuel + 2) 0 left = Reader.access (fuel + 1) left >>= operators :=
    ⟨_, fun left => by rw [Reader.binary]⟩
  refine ⟨?_, middleWithin⟩
  calc Reader.expr (fuel + 3) surroundings before
      = (Reader.primary (fuel + 2) >>= Reader.access (fuel + 1) >>= operators) surroundings
          before := by
        rw [Reader.expr]
        simp only [binary_eq, bind_assoc]
    _ = operators first surroundings middle := Reader.bind_ok reads
    _ = Reader.binary (fuel + 2) 0 first surroundings middle := by
        rw [binary_eq, Reader.bind_ok (continues.access_eq fuel first)]

/-- A flat expression is read up to its end and no further, and its tree is that of the grammar.
There is none exactly if a segment on the left of an assignment is no target; that is then the
failure.  The grammar cuts at the loosest operators. -/
theorem expr_flat {surroundings : Surroundings} {before middle after : Reading} {first : Expr}
    {steps : List Step} {fuel : Nat} (closed : before.Closed)
    (takes : Takes surroundings before first middle)
    (continues : Continues surroundings middle steps after)
    (enoughFuel : 6 * before.rest.length + 3 ≤ fuel) :
    (Reader.expr fuel surroundings before =
      match reference first steps with
      | some tree => .ok tree after
      | none => .error (Failure.atLine .parse surroundings.file after.current.line
        "Invalid expression on the left hand side of assigment") after) ∧
    (reference first steps = none ↔ ∃ segment ∈ assigned first steps,
      ∃ left, reference segment.1 segment.2 = some left ∧ left.isTarget = false) ∧
    ∀ loosest ∈ steps, (∀ step ∈ steps, loosest.precedence ≤ step.precedence) →
      reference first steps =
        (reference first (cut loosest.precedence steps).1).bind fun start =>
          joinSegments reference start (cut loosest.precedence steps).2 := by
  refine ⟨?_, reference_eq_none_iff, ?_⟩
  · obtain ⟨less, rfl⟩ : ∃ less, fuel = less + 3 := ⟨fuel - 3, by omega⟩
    have within : before.Within before.rest.length := ⟨closed, Nat.le_refl _⟩
    obtain ⟨starts, middleWithin⟩ := expr_eq_binary takes continues within
      (by omega : 6 * before.rest.length ≤ less)
    have answers := climbs surroundings (less + 2) before.rest.length (by omega) 0 first middle
      steps after continues middleWithin
    have all : tighter 0 steps = steps ∧ looser 0 steps = [] := by
      simp [tighter, looser, List.takeWhile_eq_self_iff, List.dropWhile_eq_nil_iff]
    rw [all.1, all.2, ← starts] at answers
    cases tree : reference first steps with
    | none => rwa [tree] at answers
    | some tree =>
      rw [tree] at answers
      obtain ⟨reached, result, ends, _⟩ := answers
      cases ends
      exact result
  · intro loosest _ least
    exact reference_cut least loosest.operator.precedence_mem_levels

def lineOf : List Lexeme → Reading
  | [] => ⟨⟨.endOfFile, 1⟩, [], none, {}, []⟩
  | lexeme :: rest => ⟨⟨lexeme, 1⟩, rest.map (⟨·, 1⟩), none, {}, []⟩

/-- Operators with a name behind each, up to the end of the text. -/
def spelled : List (Operator × String) → List Lexeme
  | [] => [.endOfFile]
  | (operator, name) :: rest => .operator operator.spelling :: .identifier name :: spelled rest

def bare : Surroundings := ⟨"", { id := "" }, {}⟩

theorem next_lineOf (surroundings : Surroundings) (lexeme following : Lexeme) (rest : List Lexeme)
    (plain : following ≠ .char '\\') :
    Reader.next surroundings (lineOf (lexeme :: following :: rest)) =
      .ok () (lineOf (following :: rest)) := by
  have moves : nextToken false (⟨following, 1⟩ :: rest.map (⟨·, 1⟩)) =
      .to ⟨following, 1⟩ (rest.map (⟨·, 1⟩)) := by
    unfold nextToken
    simp [Token.isChar, plain]
  rw [Reader.next, Reader.move_eq]
  simp [lineOf, moves]

theorem takes_name (name : String) (words : List (Operator × String)) :
    Takes bare (lineOf (.identifier name :: spelled words)) (.identifier 1 name)
      (lineOf (spelled words)) := by
  cases words with
  | nil =>
    exact .identifier rfl (next_lineOf _ _ _ _ nofun) rfl (by simp [lineOf, spelled]) rfl rfl
      rfl
  | cons word rest =>
    exact .identifier rfl (next_lineOf _ _ _ _ nofun) rfl (by simp [lineOf, spelled]) rfl rfl rfl

private theorem continues_names (words : List (Operator × String)) :
    Continues bare (lineOf (spelled words))
      (words.map fun word => ⟨word.1, 1, .identifier 1 word.2⟩)
      (lineOf [.endOfFile]) := by
  induction words with
  | nil => exact .stop ⟨by simp [lineOf, spelled], rfl, rfl⟩
  | cons word rest ih =>
    exact .step rfl (next_lineOf _ _ _ _ nofun) (takes_name word.2 rest) ih

/-- The line `x = a < b ** c ** d < e - f - g` behind its first name. -/
def mixedWords : List (Operator × String) :=
  [(.assign, "a"), (.less, "b"), (.power, "c"), (.power, "d"), (.less, "e"), (.minus, "f"),
    (.minus, "g")]

/-- The tree of `x = (a < b ** (c ** d)) et (b ** (c ** d) < (e - f) - g)`. -/
def mixedTree : Expr :=
  let name := Expr.identifier 1
  let power := Expr.binary 1 .power (name "b") (.binary 1 .power (name "c") (name "d"))
  let difference := Expr.binary 1 .minus (.binary 1 .minus (name "e") (name "f")) (name "g")
  .assignment 1 (name "x")
    (.binary 1 .and (.binary 1 .less (name "a") power) (.binary 1 .less power difference))

theorem mixedWords_read :
    (lineOf (.identifier "x" :: spelled mixedWords)).Closed ∧
      Reader.expr 93 bare (lineOf (.identifier "x" :: spelled mixedWords)) =
        .ok mixedTree (lineOf [.endOfFile]) := by
  have closed : (lineOf (.identifier "x" :: spelled mixedWords)).Closed :=
    .inr ⟨⟨.endOfFile, 1⟩, rfl, rfl⟩
  have grouping : reference (.identifier 1 "x")
      (mixedWords.map fun word => ⟨word.1, 1, .identifier 1 word.2⟩) = some mixedTree := by
    unfold reference
    rfl
  have reads := (expr_flat closed (takes_name "x" mixedWords) (continues_names mixedWords)
    (by decide : 6 * 15 + 3 ≤ 93)).1
  rw [grouping] at reads
  exact ⟨closed, reads⟩

end Source

end Kronk
