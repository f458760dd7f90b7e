import Kronk.Proofs.FieldValues
import Kronk.Proofs.Spelling

/-!
# Written expressions are read back

An expression is written with its compound operands in parentheses, its names as they are known
where it stands, and its lexemes in a line.  Scanning the line and reading it gives the expression
again, but for the lines that its parts are reported at, and ends at the end of the text.
-/

namespace Kronk.Source

/-! ## Writing -/

/-- Whether the expression is written in parentheses where it is an operand. -/
def Expr.isCompound : Expr → Bool
  | .index _ _ _ | .slice _ _ _ _ | .field _ _ _ | .binary _ _ _ _ | .unary _ _ _
  | .assignment _ _ _ => true
  | _ => false

/-- Lexemes in so many parentheses. -/
def enclose : Nat → List Lexeme → List Lexeme
  | 0, lexemes => lexemes
  | depth + 1, lexemes => .char '(' :: (enclose depth lexemes ++ [.char ')'])

/-- Lexemes in parentheses, at least so many. -/
def Enclosed (least : Nat) (content : List Lexeme → Prop) (lexemes : List Lexeme) : Prop :=
  ∃ depth inner, least ≤ depth ∧ content inner ∧ lexemes = enclose depth inner

/-- Pieces with commas between them. -/
def separated : List (List Lexeme) → List Lexeme
  | [] => []
  | [piece] => piece
  | piece :: rest => piece ++ .char ',' :: separated rest

section Writing

variable (surroundings : Surroundings) (signatures : Table (List String))

/-- The lexemes name a function: one of the module itself, or one behind an alias. -/
inductive NamesFunction : String → List Lexeme → Prop
  | own {name : String} :
      signatures.contains (Name.ofType surroundings.module.id name) = false →
      NamesFunction (Name.ofFunction surroundings.module.id name) [.identifier name]
  | foreign {localName symbol : String} :
      surroundings.module.hasDependency localName = true →
      surroundings.signature? signatures
        (Name.ofForeignType surroundings.module.id localName symbol) = .ok none →
      NamesFunction (Name.ofForeignFunction surroundings.module.id localName symbol)
        [.identifier localName, .scope, .identifier symbol]

/-- The lexemes name an entity: one of the module itself, or one behind an alias. -/
inductive NamesEntity : String → String → List Lexeme → Prop
  | own {symbol : String} :
      signatures.contains (Name.ofType surroundings.module.id symbol) = true →
      NamesEntity (Name.ofType surroundings.module.id symbol) symbol [.identifier symbol]
  | foreign {localName symbol name : String} {signature : List String} :
      surroundings.module.hasDependency localName = true →
      surroundings.signature? signatures
        (Name.ofForeignType surroundings.module.id localName symbol) = .ok (some signature) →
      surroundings.registry.canonical
        (Name.ofForeignType surroundings.module.id localName symbol) = .ok name →
      NamesEntity name symbol [.identifier localName, .scope, .identifier symbol]

mutual

/-- The lexemes write the expression, without parentheses around the whole. -/
def Bare : Expr → List Lexeme → Prop
  | .boolean _ value, lexemes => lexemes = [.boolean value]
  | .number _ value, lexemes => ∃ spelling, lexemes = [.number spelling value]
  | .string _ value, lexemes => lexemes = [.string value]
  | .identifier _ name, lexemes => lexemes = [.identifier name]
  | .list _ elements, lexemes =>
    ∃ pieces, Pieces elements pieces ∧ lexemes = .char '[' :: separated pieces ++ [.char ']']
  | .index _ list index, lexemes =>
    ∃ target inner, Enclosed list.isCompound.toNat (Bare list) target ∧
      Enclosed 0 (Bare index) inner ∧ lexemes = target ++ .char '[' :: inner ++ [.char ']']
  | .slice _ list start stop, lexemes =>
    ∃ target first last, Enclosed list.isCompound.toNat (Bare list) target ∧
      OptionalPiece start first ∧ OptionalPiece stop last ∧
      lexemes = target ++ .char '[' :: first ++ .char ':' :: last ++ [.char ']']
  | .entity _ name symbol fields, lexemes =>
    ∃ head signature pieces, NamesEntity surroundings signatures name symbol head ∧
      surroundings.signature? signatures name = .ok (some signature) ∧
      FieldPieces signature fields pieces ∧
      lexemes = head ++ .char '(' :: separated pieces ++ [.char ')']
  | .field _ entity name, lexemes =>
    ∃ target, Enclosed entity.isCompound.toNat (Bare entity) target ∧
      lexemes = target ++ [.char '.', .identifier name]
  | .binary _ operator left right, lexemes =>
    ∃ first second, Enclosed left.isCompound.toNat (Bare left) first ∧
      Enclosed right.isCompound.toNat (Bare right) second ∧
      lexemes = first ++ .operator operator.spelling :: second
  | .unary _ operator operand, lexemes =>
    ∃ inner, Enclosed operand.isCompound.toNat (Bare operand) inner ∧
      lexemes = .operator operator.spelling :: inner
  | .assignment _ target value, lexemes =>
    ∃ first second, Enclosed target.isCompound.toNat (Bare target) first ∧
      Enclosed value.isCompound.toNat (Bare value) second ∧
      lexemes = first ++ .operator Operator.assign.spelling :: second
  | .call _ callee arguments, lexemes =>
    ∃ head pieces, NamesFunction surroundings signatures callee head ∧
      Pieces arguments pieces ∧ lexemes = head ++ .char '(' :: separated pieces ++ [.char ')']

def Pieces : List Expr → List (List Lexeme) → Prop
  | [], pieces => pieces = []
  | expression :: rest, pieces =>
    ∃ piece others, Enclosed 0 (Bare expression) piece ∧ Pieces rest others ∧
      pieces = piece :: others

def OptionalPiece : Option Expr → List Lexeme → Prop
  | none, lexemes => lexemes = []
  | some expression, lexemes => Enclosed 0 (Bare expression) lexemes

/-- Each piece writes a field that is given a value, in the order of the signature. -/
def FieldPieces : List String → List (Option Expr) → List (List Lexeme) → Prop
  | name :: names, some value :: rest, pieces =>
    ∃ piece others, Enclosed 0 (Bare value) piece ∧ FieldPieces names rest others ∧
      pieces = (.identifier name :: .operator Operator.assign.spelling :: piece) :: others
  | _ :: names, none :: rest, pieces => FieldPieces names rest pieces
  | _, _, pieces => pieces = []

end

def Spellable (lexeme : Lexeme) : Prop := ∃ chars, Token.Spells lexeme chars

mutual

/-- The expression can be written: its numbers and strings have a spelling, its names are words that
are nothing else, its operators and targets stand where they may, and its functions and entities
are known. -/
def Legal : Expr → Prop
  | .boolean _ _ => True
  | .number _ value => ∃ spelling, Spellable (.number spelling value)
  | .string _ value => Spellable (.string value)
  | .identifier _ name =>
    Spellable (.identifier name) ∧
      signatures.contains (Name.ofType surroundings.module.id name) = false
  | .list _ elements => LegalAll elements
  | .index _ list index => Legal list ∧ Legal index
  | .slice _ list start stop => Legal list ∧ LegalOption start ∧ LegalOption stop
  | .entity _ name symbol fields =>
    (∃ head, NamesEntity surroundings signatures name symbol head ∧
      ∀ lexeme ∈ head, Spellable lexeme) ∧
    (∃ signature, surroundings.signature? signatures name = .ok (some signature) ∧ signature.Nodup ∧
      fields.length = signature.length ∧ ∀ field ∈ signature, Spellable (.identifier field)) ∧
    LegalOptions fields
  | .field _ entity name => Legal entity ∧ Spellable (.identifier name)
  | .binary _ operator left right => operator ≠ .assign ∧ Legal left ∧ Legal right
  | .unary _ operator operand => operator.isUnary = true ∧ Legal operand
  | .assignment _ target value => target.isTarget = true ∧ Legal target ∧ Legal value
  | .call _ callee arguments =>
    (∃ head, NamesFunction surroundings signatures callee head ∧
      ∀ lexeme ∈ head, Spellable lexeme) ∧ LegalAll arguments

def LegalAll : List Expr → Prop
  | [] => True
  | expression :: rest => Legal expression ∧ LegalAll rest

def LegalOption : Option Expr → Prop
  | none => True
  | some expression => Legal expression

def LegalOptions : List (Option Expr) → Prop
  | [] => True
  | expression :: rest => LegalOption expression ∧ LegalOptions rest

end

end Writing

/-- Moving over tokens with the given lexemes leads from one reading to another. -/
inductive Spans (surroundings : Surroundings) : Reading → List Lexeme → Reading → Prop
  | nil {reading : Reading} : Spans surroundings reading [] reading
  | cons {before moved after : Reading} {lexeme : Lexeme} {rest : List Lexeme} :
      before.current.lexeme = lexeme → Reader.next surroundings before = .ok () moved →
      moved.signatures = before.signatures → Spans surroundings moved rest after →
      Spans surroundings before (lexeme :: rest) after

namespace Spans

variable {surroundings : Surroundings} {before after : Reading}

theorem split {first second : List Lexeme}
    (spans : Spans surroundings before (first ++ second) after) :
    ∃ middle, Spans surroundings before first middle ∧ Spans surroundings middle second after := by
  induction first generalizing before with
  | nil => exact ⟨before, .nil, spans⟩
  | cons lexeme rest ih =>
    cases spans with
    | cons isHere moves same spans =>
      obtain ⟨middle, starts, ends⟩ := ih spans
      exact ⟨middle, .cons isHere moves same starts, ends⟩

theorem signatures {lexemes : List Lexeme} (spans : Spans surroundings before lexemes after) :
    after.signatures = before.signatures := by
  induction spans with
  | nil => rfl
  | cons _ _ same _ ih => rw [ih, same]

theorem head {lexeme : Lexeme} {rest : List Lexeme}
    (spans : Spans surroundings before (lexeme :: rest) after) :
    ∃ moved, before.current.lexeme = lexeme ∧ Reader.next surroundings before = .ok () moved ∧
      moved.signatures = before.signatures ∧ Spans surroundings moved rest after := by
  cases spans with
  | cons isHere moves same spans => exact ⟨_, isHere, moves, same, spans⟩

theorem single {lexeme : Lexeme} (spans : Spans surroundings before [lexeme] after) :
    before.current.lexeme = lexeme ∧ Reader.next surroundings before = .ok () after := by
  obtain ⟨_, isHere, moves, _, nothing⟩ := spans.head
  cases nothing
  exact ⟨isHere, moves⟩

theorem between {first last : Lexeme} {lexemes : List Lexeme}
    (spans : Spans surroundings before (first :: (lexemes ++ [last])) after) :
    ∃ start stop, before.current.lexeme = first ∧ Reader.next surroundings before = .ok () start ∧
      start.signatures = before.signatures ∧ Spans surroundings start lexemes stop ∧
      stop.current.lexeme = last ∧ Reader.next surroundings stop = .ok () after := by
  obtain ⟨start, isHere, moves, kept, spans⟩ := spans.head
  obtain ⟨stop, inside, closing⟩ := spans.split
  exact ⟨start, stop, isHere, moves, kept, inside, closing.single⟩

end Spans

section Reading

variable {surroundings : Surroundings} {signatures : Table (List String)}
  {before after : Reading} {lexemes : List Lexeme}

/-! ## Operands -/

/-- A reader gives the expression, but for its lines. -/
abbrev Restores (surroundings : Surroundings) (reader : Nat → Reader Expr) (before : Reading)
    (expression : Expr) (after : Reading) : Prop :=
  ∃ result, result.unlined = expression.unlined ∧ Gives surroundings reader before result after

/-- A reader gives the expression wherever it is written and a certain token follows. -/
abbrev Reads (surroundings : Surroundings) (signatures : Table (List String))
    (reader : Nat → Reader Expr) (final : Reading → Prop) (expression : Expr) : Prop :=
  ∀ {lexemes before after}, Bare surroundings signatures expression lexemes →
    Spans surroundings before lexemes after → before.signatures = signatures → final after →
    Restores surroundings reader before expression after

/-- A written expression is read: as a whole, and as an operand if it needs no parentheses there. -/
structure Understood (surroundings : Surroundings) (signatures : Table (List String))
    (expression : Expr) : Prop where
  expr : Reads surroundings signatures Reader.expr Reading.Ends expression
  primary : expression.isCompound = false →
    Reads surroundings signatures Reader.primary Reading.Follows expression

namespace Understood

variable {expression : Expr}

/-- What is read as an operand is also read as a whole. -/
theorem of_primary
    (primary : Reads surroundings signatures Reader.primary Reading.Follows expression) :
    Understood surroundings signatures expression := by
  constructor
  · intro lexemes before after written spans same ends
    obtain ⟨result, alike, gives⟩ := primary written spans same ends.follows
    exact ⟨result, alike, gives.expr_primary ends⟩
  · intro _ lexemes before after written spans same follows
    exact primary written spans same follows

/-- What is read as a whole is an operand in parentheses. -/
theorem primary_parentheses (reads : ∀ {before after}, Spans surroundings before lexemes after →
      before.signatures = signatures → after.Ends →
      Restores surroundings Reader.expr before expression after)
    (spans : Spans surroundings before (.char '(' :: (lexemes ++ [.char ')'])) after)
    (same : before.signatures = signatures) :
    Restores surroundings Reader.primary before expression after := by
  obtain ⟨start, stop, isHere, moves, kept, inside, closes, leaves⟩ := spans.between
  obtain ⟨result, alike, gives⟩ := reads inside (kept.trans same) (.of_char closes (by decide))
  exact ⟨result, alike, .primary_enclosed isHere moves gives closes leaves⟩

/-- An expression is read with any parentheses around it. -/
theorem enclosed (understood : Understood surroundings signatures expression)
    (written : Enclosed 0 (Bare surroundings signatures expression) lexemes)
    (spans : Spans surroundings before lexemes after) (same : before.signatures = signatures)
    (ends : after.Ends) : Restores surroundings Reader.expr before expression after := by
  obtain ⟨depth, inner, _, written, rfl⟩ := written
  induction depth generalizing before after with
  | zero => exact understood.expr written spans same ends
  | succ depth ih =>
    obtain ⟨result, alike, gives⟩ := primary_parentheses
      (fun inside kept closes => ih kept closes (Nat.zero_le _) inside) spans same
    exact ⟨result, alike, gives.expr_primary ends⟩

/-- An operand is read with the parentheses that it needs. -/
theorem operand (understood : Understood surroundings signatures expression)
    (written : Enclosed expression.isCompound.toNat (Bare surroundings signatures expression)
      lexemes)
    (spans : Spans surroundings before lexemes after) (same : before.signatures = signatures)
    (follows : after.Follows) : Restores surroundings Reader.primary before expression after := by
  obtain ⟨depth, inner, least, written, rfl⟩ := written
  cases depth with
  | zero =>
    have simple : expression.isCompound = false := by
      cases compound : expression.isCompound with
      | false => rfl
      | true => simp [compound] at least
    exact understood.primary simple written spans same follows
  | succ depth =>
    apply primary_parentheses _ spans same
    intro before after spans same ends
    exact understood.enclosed ⟨depth, inner, Nat.zero_le _, written, rfl⟩ spans same ends

end Understood

/-! ## Sequences -/

/-- The lexemes start with none that closes or divides something. -/
def Opens (lexemes : List Lexeme) : Prop :=
  ∃ first rest, lexemes = first :: rest ∧ first ∉ [.char ')', .char ']', .char ':']

theorem Opens.append {second : List Lexeme} (opens : Opens lexemes) :
    Opens (lexemes ++ second) := by
  obtain ⟨first, rest, rfl, apart⟩ := opens
  exact ⟨first, rest ++ second, rfl, apart⟩

theorem Opens.isChar (opens : Opens lexemes) (spans : Spans surroundings before lexemes after) :
    before.current.isChar ')' = false ∧ before.current.isChar ']' = false ∧
      before.current.isChar ':' = false := by
  obtain ⟨first, rest, rfl, apart⟩ := opens
  cases spans with
  | cons isHere _ _ _ =>
    simp only [List.mem_cons, List.not_mem_nil, or_false, not_or] at apart
    simp [Token.isChar, isHere, apart]

theorem Opens.enclosed {least : Nat} {content : List Lexeme → Prop}
    (starts : ∀ inner, content inner → Opens inner) (enclosed : Enclosed least content lexemes) :
    Opens lexemes := by
  obtain ⟨depth, inner, _, holds, rfl⟩ := enclosed
  cases depth with
  | zero => exact starts inner holds
  | succ depth => exact ⟨.char '(', _, rfl, by decide⟩

theorem NamesFunction.opens {callee : String} {head : List Lexeme}
    (names : NamesFunction surroundings signatures callee head) : Opens head := by
  cases names with
  | own _ => exact ⟨_, _, rfl, by simp⟩
  | foreign _ _ => exact ⟨_, _, rfl, by simp⟩

variable {name : String}

theorem NamesEntity.opens {symbol : String} {head : List Lexeme}
    (names : NamesEntity surroundings signatures name symbol head) : Opens head := by
  cases names with
  | own _ => exact ⟨_, _, rfl, by simp⟩
  | foreign _ _ => exact ⟨_, _, rfl, by simp⟩

/-- A written expression starts with no lexeme that closes or divides something. -/
theorem Bare.opens : (expression : Expr) → ∀ {lexemes : List Lexeme},
    Bare surroundings signatures expression lexemes → Opens lexemes
  | .boolean _ _, _, written | .string _ _, _, written | .identifier _ _, _, written => by
    rw [Bare] at written
    exact ⟨_, _, written, by simp⟩
  | .number _ _, _, written => by
    rw [Bare] at written
    obtain ⟨_, rfl⟩ := written
    exact ⟨_, _, rfl, by simp⟩
  | .list _ _, _, written => by
    rw [Bare] at written
    obtain ⟨_, _, rfl⟩ := written
    exact ⟨_, _, rfl, by decide⟩
  | .index _ list _, _, written => by
    rw [Bare] at written
    obtain ⟨_, _, target, _, rfl⟩ := written
    rw [List.append_assoc]
    exact (Opens.enclosed (fun _ => Bare.opens list) target).append
  | .slice _ list _ _, _, written => by
    rw [Bare] at written
    obtain ⟨_, _, _, target, _, _, rfl⟩ := written
    simp only [List.append_assoc]
    exact (Opens.enclosed (fun _ => Bare.opens list) target).append
  | .entity _ _ _ _, _, written => by
    rw [Bare] at written
    obtain ⟨_, _, _, names, _, _, rfl⟩ := written
    rw [List.append_assoc]
    exact names.opens.append
  | .field _ entity _, _, written => by
    rw [Bare] at written
    obtain ⟨_, target, rfl⟩ := written
    exact (Opens.enclosed (fun _ => Bare.opens entity) target).append
  | .binary _ _ left _, _, written | .assignment _ left _, _, written => by
    rw [Bare] at written
    obtain ⟨_, _, first, _, rfl⟩ := written
    exact (Opens.enclosed (fun _ => Bare.opens left) first).append
  | .unary _ _ _, _, written => by
    rw [Bare] at written
    obtain ⟨_, _, rfl⟩ := written
    exact ⟨_, _, rfl, by simp⟩
  | .call _ _ _, _, written => by
    rw [Bare] at written
    obtain ⟨_, _, names, _, rfl⟩ := written
    rw [List.append_assoc]
    exact names.opens.append

theorem Pieces.opens {first : Expr} {rest : List Expr} {pieces : List (List Lexeme)}
    (written : Pieces surroundings signatures (first :: rest) pieces) :
    Opens (separated pieces) := by
  rw [Pieces] at written
  obtain ⟨piece, others, written, _, rfl⟩ := written
  have starts : Opens piece := Opens.enclosed (fun _ => Bare.opens first) written
  cases others with
  | nil => exact starts
  | cons next following => exact starts.append

/-- A sequence up to a closing character is read by a reader that takes one expression after
another. -/
theorem Gives.pieces {reader : Nat → Nat → Reader (List Expr)} {closing : Char}
    {error : Nat → ReadError}
    (unfolds : ∀ fuel position, reader (fuel + 1) position = do
      let element ← Reader.expr fuel
      if ← Reader.atChar closing then return [element]
      Reader.passChar ',' (error position)
      return element :: (← reader fuel (position + 1)))
    (isClosing : closing ∈ [')', ']']) {first : Expr} {rest : List Expr}
    {pieces : List (List Lexeme)}
    (understood : ∀ expression ∈ first :: rest, Understood surroundings signatures expression)
    (written : Pieces surroundings signatures (first :: rest) pieces)
    (spans : Spans surroundings before (separated pieces) after)
    (same : before.signatures = signatures) (closes : after.current.lexeme = .char closing)
    (position : Nat) :
    ∃ results, unlinedAll results = unlinedAll (first :: rest) ∧
      Gives surroundings (fun fuel => reader fuel position) before results after := by
  have ends : after.Ends := .of_char closes (List.mem_append_left [',', ':'] isClosing)
  have noComma : (Lexeme.char ',' == .char closing) = false := by
    simp only [List.mem_cons, List.not_mem_nil, or_false] at isClosing
    rcases isClosing with rfl | rfl <;> decide
  induction rest generalizing first pieces before position with
  | nil =>
    rw [Pieces] at written
    obtain ⟨piece, others, written, nothing, rfl⟩ := written
    rw [Pieces] at nothing
    subst nothing
    obtain ⟨result, alike, gives⟩ :=
      (understood first List.mem_cons_self).enclosed written spans same ends
    refine ⟨[result], by simp [unlinedAll, alike], ?_⟩
    refine .of_succ (fun fuel => unfolds fuel position) (gives.bind ?_)
    exact .onChar closes (.of_ok rfl)
  | cons second rest ih =>
    rw [Pieces] at written
    obtain ⟨piece, others, written, later, rfl⟩ := written
    have more : ∃ next following, others = next :: following := by
      rw [Pieces] at later
      obtain ⟨next, following, _, _, rfl⟩ := later
      exact ⟨next, following, rfl⟩
    obtain ⟨next, following, rfl⟩ := more
    rw [separated] at spans
    · obtain ⟨middle, starts, spans⟩ := spans.split
      obtain ⟨_, isComma, moves, kept, spans⟩ := spans.head
      obtain ⟨result, alike, gives⟩ := (understood first List.mem_cons_self).enclosed written
        starts same (.of_char isComma (by decide))
      have sameMoved := kept.trans (starts.signatures.trans same)
      obtain ⟨results, alikeRest, givesRest⟩ := ih
        (fun other member => understood other (List.mem_cons_of_mem _ member)) later spans
        sameMoved (position + 1)
      refine ⟨result :: results, by simp only [unlinedAll, alike, alikeRest], ?_⟩
      refine .of_succ (fun fuel => unfolds fuel position) (gives.bind ?_)
      refine .atChar false (by rw [Token.isChar, isComma, noComma]) ?_
      exact .passChar isComma moves (givesRest.bind (.of_ok rfl))
    · exact List.cons_ne_nil _ _

/-! ## Field values -/

private theorem positions_cons {names : List String} (apart : name ∉ names) (value : Expr)
    (given : List (String × Expr)) :
    positions (name :: names) ((name, value) :: given) = some value :: positions names given := by
  simp only [positions, List.map_cons, List.lookup_cons_self, List.cons.injEq, true_and]
  refine List.map_congr_left fun other member => ?_
  rw [List.lookup_cons, beq_false_of_ne]
  rintro rfl
  exact apart member

theorem GivesField.of_written {value : Expr} {piece : List Lexeme}
    (understood : Understood surroundings signatures value)
    (written : Enclosed 0 (Bare surroundings signatures value) piece)
    (spans : Spans surroundings before
      (.identifier name :: .operator Operator.assign.spelling :: piece) after)
    (same : before.signatures = signatures) (ends : after.Ends) :
    ∃ result, result.unlined = value.unlined ∧
      GivesField surroundings before name result after := by
  obtain ⟨_, isName, passes, kept, spans⟩ := spans.head
  obtain ⟨_, assigns, moves, keptAgain, spans⟩ := spans.head
  obtain ⟨result, alike, gives⟩ :=
    understood.enclosed written spans (keptAgain.trans (kept.trans same)) ends
  exact ⟨result, alike, _, _, isName, passes, assigns, moves, gives⟩

/-- Written values of fields are read, in the order of the signature. -/
theorem FieldPieces.given {names : List String} {fields : List (Option Expr)}
    {pieces : List (List Lexeme)} (nodup : names.Nodup) (lengths : fields.length = names.length)
    (understood : ∀ field ∈ fields, ∀ value ∈ field, Understood surroundings signatures value)
    (written : FieldPieces surroundings signatures names fields pieces)
    (spans : Spans surroundings before (separated pieces) after)
    (same : before.signatures = signatures) (closes : after.current.lexeme = .char ')') :
    ∃ given, (given.map Prod.fst).Sublist names ∧
      unlinedOptions (positions names given) = unlinedOptions fields ∧
      (pieces = [] → given = []) ∧ (pieces ≠ [] → GivesFields surroundings before given after) := by
  induction fields generalizing names pieces before with
  | nil =>
    obtain rfl : names = [] := List.eq_nil_of_length_eq_zero lengths.symm
    exact ⟨[], .slnil, rfl, fun _ => rfl, fun some =>
      absurd (by simpa [FieldPieces] using written) some⟩
  | cons field rest ih =>
    obtain ⟨name, others, rfl⟩ := List.exists_cons_of_length_eq_add_one lengths.symm
    have understoodRest : ∀ field ∈ rest, ∀ value ∈ field,
        Understood surroundings signatures value :=
      fun other member => understood other (List.mem_cons_of_mem _ member)
    obtain ⟨apart, nodupRest⟩ := List.nodup_cons.mp nodup
    have lengthsRest := Nat.succ.inj lengths
    cases field with
    | none =>
      rw [FieldPieces] at written
      obtain ⟨given, names, alike, none, some⟩ :=
        ih nodupRest lengthsRest understoodRest written spans same
      refine ⟨given, names.cons name, ?_, none, some⟩
      have absent : given.lookup name = .none := by
        rw [← Option.not_isSome_iff_eq_none, lookup_isSome]
        exact fun member => apart (names.subset member)
      rw [positions, List.map_cons, absent, unlinedOptions, unlinedOptions]
      exact congrArg _ alike
    | some value =>
      rw [FieldPieces] at written
      obtain ⟨piece, later, written, writtenRest, rfl⟩ := written
      have understoodValue := understood (some value) List.mem_cons_self value rfl
      cases later with
      | nil =>
        obtain ⟨given, _, alike, none, _⟩ :=
          ih nodupRest lengthsRest understoodRest writtenRest .nil
            (spans.signatures.trans same)
        obtain rfl := none rfl
        obtain ⟨result, alikeValue, gives⟩ := GivesField.of_written understoodValue written
          spans same (.of_char closes (by decide))
        refine ⟨[(name, result)], (List.nil_sublist _).cons_cons name, ?_, by simp,
          fun _ => .last gives closes⟩
        rw [positions_cons apart, unlinedOptions, unlinedOptions, unlinedOption,
          unlinedOption, alikeValue, alike]
      | cons next following =>
        obtain ⟨middle, starts, spans⟩ := spans.split
        obtain ⟨_, isComma, moves, kept, spans⟩ := spans.head
        obtain ⟨result, alikeValue, gives⟩ := GivesField.of_written understoodValue written
          starts same (.of_char isComma (by decide))
        obtain ⟨given, names, alike, _, givesRest⟩ := ih nodupRest lengthsRest
          understoodRest writtenRest spans (kept.trans (starts.signatures.trans same))
        refine ⟨(name, result) :: given, names.cons_cons name, ?_, by simp,
          fun _ => .cons gives isComma moves (givesRest (List.cons_ne_nil _ _))⟩
        rw [positions_cons apart, unlinedOptions, unlinedOptions, unlinedOption,
          unlinedOption, alikeValue, alike]

/-! ## Forms of expressions -/

namespace Understood

variable {line : Nat} {name : String} {operator : Operator}

theorem boolean {value : Bool} : Understood surroundings signatures (.boolean line value) := by
  apply of_primary
  intro lexemes before after written spans _ _
  rw [Bare] at written
  subst written
  obtain ⟨isHere, moves⟩ := spans.single
  exact ⟨.boolean before.current.line value, rfl,
    .primary_literal isHere moves (.inl ⟨value, rfl, rfl⟩)⟩

theorem number {value : Binary64} : Understood surroundings signatures (.number line value) := by
  apply of_primary
  intro lexemes before after written spans _ _
  rw [Bare] at written
  obtain ⟨spelling, rfl⟩ := written
  obtain ⟨isHere, moves⟩ := spans.single
  exact ⟨.number before.current.line value, rfl,
    .primary_literal isHere moves (.inr (.inl ⟨spelling, value, rfl, rfl⟩))⟩

theorem string {value : String} : Understood surroundings signatures (.string line value) := by
  apply of_primary
  intro lexemes before after written spans _ _
  rw [Bare] at written
  subst written
  obtain ⟨isHere, moves⟩ := spans.single
  exact ⟨.string before.current.line value, rfl,
    .primary_literal isHere moves (.inr (.inr ⟨value, rfl, rfl⟩))⟩

theorem identifier
    (noEntity : signatures.contains (Name.ofType surroundings.module.id name) = false) :
    Understood surroundings signatures (.identifier line name) := by
  apply of_primary
  intro lexemes before after written spans same follows
  rw [Bare] at written
  subst written
  obtain ⟨isHere, moves⟩ := spans.single
  refine ⟨.identifier before.current.line name, rfl,
    .primary_named isHere moves (.named_identifier follows ?_)⟩
  rw [spans.signatures, same]
  exact noEntity

theorem list {elements : List Expr}
    (understood : ∀ element ∈ elements, Understood surroundings signatures element) :
    Understood surroundings signatures (.list line elements) := by
  apply of_primary
  intro lexemes before after written spans same _
  rw [Bare] at written
  obtain ⟨pieces, written, rfl⟩ := written
  obtain ⟨start, stop, isHere, moves, kept, inside, closes, leaves⟩ := spans.between
  have opens : ∀ {result}, Gives surroundings (fun fuel => do
      if ← Reader.atChar ']' then
        Reader.next
        return .list before.current.line []
      else
        let elements ← Reader.elements fuel 1
        Reader.next
        return .list before.current.line elements) start result after →
      Gives surroundings Reader.primary before result after := by
    intro result continues
    refine .of_succ (fun fuel => by rw [Reader.primary]) (.line (.current ?_))
    rw [isHere]
    exact .step moves continues
  cases elements with
  | nil =>
    rw [Pieces] at written
    subst written
    cases inside
    refine ⟨.list before.current.line [], rfl, opens ?_⟩
    exact .onChar closes (.step leaves (.of_ok rfl))
  | cons first rest =>
    have unfolds : ∀ fuel position, Reader.elements (fuel + 1) position = do
        let element ← Reader.expr fuel
        if ← Reader.atChar ']' then return [element]
        Reader.passChar ',' (.elementEnd position)
        return element :: (← Reader.elements fuel (position + 1)) := by
      intro fuel position
      rw [Reader.elements]
    obtain ⟨results, alike, gives⟩ := Gives.pieces unfolds (by decide) understood written inside
      (kept.trans same) closes 1
    refine ⟨.list before.current.line results, by rw [Expr.unlined, Expr.unlined, alike], opens ?_⟩
    refine .atChar false (written.opens.isChar inside).2.1 ?_
    exact gives.bind (.step leaves (.of_ok rfl))

theorem foreign {localName symbol : String} {middle : Reading} {result : Expr}
    {found : Option (List String)} (isAlias : surroundings.module.hasDependency localName = true)
    (head : Spans surroundings before [.identifier localName, .scope, .identifier symbol] middle)
    (opens : middle.current.lexeme = .char '(')
    (isFound : surroundings.signature? middle.signatures
      (Name.ofForeignType surroundings.module.id localName symbol) = .ok found)
    (continues : Gives surroundings (fun fuel =>
      if found.isSome then do
        Reader.entity fuel before.current.line
          (← Reader.canonical (Name.ofForeignType surroundings.module.id localName symbol)) symbol
      else Reader.call fuel before.current.line
        (Name.ofForeignFunction surroundings.module.id localName symbol)) middle result after) :
    Gives surroundings Reader.primary before result after := by
  obtain ⟨_, isName, moves, _, head⟩ := head.head
  obtain ⟨_, isScope, passes, _, head⟩ := head.head
  obtain ⟨isSymbol, leaves⟩ := head.single
  exact .primary_named isName moves
    (.named_foreign isAlias isScope passes isSymbol leaves opens isFound continues)

theorem call_arguments (line : Nat) (callee : String) {arguments : List Expr}
    {pieces : List (List Lexeme)}
    (understood : ∀ argument ∈ arguments, Understood surroundings signatures argument)
    (written : Pieces surroundings signatures arguments pieces)
    (spans : Spans surroundings before (.char '(' :: (separated pieces ++ [.char ')'])) after)
    (same : before.signatures = signatures) : ∃ results, unlinedAll results = unlinedAll arguments ∧
      Gives surroundings (fun fuel => Reader.call fuel line callee) before
        (.call line callee results) after := by
  obtain ⟨start, stop, isHere, moves, kept, inside, closes, leaves⟩ := spans.between
  cases arguments with
  | nil =>
    rw [Pieces] at written
    subst written
    cases inside
    refine ⟨[], rfl, .of_succ (fun fuel => by rw [Reader.call]) (.step moves ?_)⟩
    exact .onChar closes (.step leaves (.of_ok rfl))
  | cons first rest =>
    let reader : Nat → Nat → Reader (List Expr) := fun fuel _ => Reader.arguments fuel
    have unfolds : ∀ fuel position, reader (fuel + 1) position = do
        let argument ← Reader.expr fuel
        if ← Reader.atChar ')' then return [argument]
        Reader.passChar ',' .argumentEnd
        return argument :: (← reader fuel (position + 1)) := by
      intro fuel position
      change Reader.arguments (fuel + 1) = _
      rw [Reader.arguments]
    obtain ⟨results, alike, gives⟩ := Gives.pieces unfolds (by decide) understood written inside
      (kept.trans same) closes 1
    refine ⟨results, alike, .of_succ (fun fuel => by rw [Reader.call]) (.step moves ?_)⟩
    refine .atChar false (written.opens.isChar inside).1 ?_
    exact gives.bind (.step leaves (.of_ok rfl))

theorem call {callee : String} {arguments : List Expr}
    (understood : ∀ argument ∈ arguments, Understood surroundings signatures argument) :
    Understood surroundings signatures (.call line callee arguments) := by
  apply of_primary
  intro lexemes before after written spans same _
  rw [Bare] at written
  obtain ⟨head, pieces, names, written, rfl⟩ := written
  rw [List.append_assoc] at spans
  obtain ⟨middle, spansHead, spans⟩ := spans.split
  have sameMiddle := spansHead.signatures.trans same
  obtain ⟨_, _, opens, _⟩ := spans.between
  obtain ⟨results, alike, gives⟩ :=
    call_arguments before.current.line callee understood written spans sameMiddle
  refine ⟨.call before.current.line callee results, by rw [Expr.unlined, Expr.unlined, alike], ?_⟩
  cases names with
  | own noEntity =>
    obtain ⟨isName, moves⟩ := spansHead.single
    refine .primary_named isName moves (.named_call opens ?_ gives)
    rw [sameMiddle]
    exact noEntity
  | foreign isAlias noEntity =>
    rw [← sameMiddle] at noEntity
    exact foreign isAlias spansHead opens noEntity gives

theorem entity_fields (line : Nat) (symbol : String) {fields : List (Option Expr)}
    {signature : List String} {pieces : List (List Lexeme)}
    (known : surroundings.signature? signatures name = .ok (some signature))
    (nodup : signature.Nodup)
    (lengths : fields.length = signature.length)
    (understood : ∀ field ∈ fields, ∀ value ∈ field, Understood surroundings signatures value)
    (written : FieldPieces surroundings signatures signature fields pieces)
    (spans : Spans surroundings before (.char '(' :: (separated pieces ++ [.char ')'])) after)
    (same : before.signatures = signatures) :
    ∃ results, unlinedOptions results = unlinedOptions fields ∧
      Gives surroundings (fun fuel => Reader.entity fuel line name symbol) before
        (.entity line name symbol results) after := by
  obtain ⟨start, stop, isHere, moves, kept, inside, closes, leaves⟩ := spans.between
  have sameStart := kept.trans same
  have looks : Reader.signature? name surroundings start = .ok (some signature) start := by
    rw [← sameStart] at known
    change Reader.ask (surroundings.signature? start.signatures name) surroundings start = _
    rw [known]
    rfl
  obtain ⟨given, names, alike, none, some⟩ :=
    written.given nodup lengths understood inside sameStart closes
  have arguments : Arguments surroundings start given stop := by
    cases pieces with
    | nil =>
      cases inside
      exact .inl ⟨none rfl, rfl, closes⟩
    | cons piece rest => exact .inr (some (List.cons_ne_nil _ _))
  have accepts : Accepts signature given := ⟨names.subset, names.nodup nodup⟩
  refine ⟨_, alike, ?_⟩
  exact (arguments.constructs nodup isHere moves looks leaves).mono
    fun _ outcome => outcome.1 accepts

theorem entity {symbol : String} {fields : List (Option Expr)} {signature : List String}
    (known : surroundings.signature? signatures name = .ok (some signature))
    (nodup : signature.Nodup)
    (lengths : fields.length = signature.length)
    (understood : ∀ field ∈ fields, ∀ value ∈ field, Understood surroundings signatures value) :
    Understood surroundings signatures (.entity line name symbol fields) := by
  apply of_primary
  intro lexemes before after written spans same _
  rw [Bare] at written
  obtain ⟨head, found, pieces, names, same', written, rfl⟩ := written
  obtain rfl : signature = found :=
    Option.some.inj (Except.ok.inj (known.symm.trans same'))
  rw [List.append_assoc] at spans
  obtain ⟨middle, spansHead, spans⟩ := spans.split
  have sameMiddle := spansHead.signatures.trans same
  obtain ⟨_, _, opens, _⟩ := spans.between
  obtain ⟨results, alike, gives⟩ := entity_fields before.current.line symbol known nodup lengths
    understood written spans sameMiddle
  refine ⟨.entity before.current.line name symbol results, by
    rw [Expr.unlined, Expr.unlined, alike],
    ?_⟩
  cases names with
  | own isEntity =>
    obtain ⟨isName, moves⟩ := spansHead.single
    refine .primary_named isName moves (.named_entity opens ?_ gives)
    rw [sameMiddle]
    exact isEntity
  | @foreign localName _ _ _ isAlias isEntity canonical =>
    rw [← sameMiddle] at isEntity
    refine foreign isAlias spansHead opens isEntity ?_
    have asks : Reader.canonical (Name.ofForeignType surroundings.module.id localName symbol)
        surroundings middle = .ok name middle := by
      change Reader.ask (surroundings.registry.canonical _) surroundings middle = _
      rw [canonical]
      rfl
    exact .step asks gives

/-- A form that is written in parentheses where it is an operand is read as a whole. -/
theorem of_expr {expression : Expr} (compound : expression.isCompound = true)
    (expr : Reads surroundings signatures Reader.expr Reading.Ends expression) :
    Understood surroundings signatures expression :=
  ⟨expr, fun simple => by rw [compound] at simple; cases simple⟩

theorem field {entity : Expr} (understood : Understood surroundings signatures entity) :
    Understood surroundings signatures (.field line entity name) := by
  refine of_expr rfl ?_
  intro lexemes before after written spans same ends
  rw [Bare] at written
  obtain ⟨target, written, rfl⟩ := written
  obtain ⟨middle, starts, spans⟩ := spans.split
  obtain ⟨_, isPoint, moves, _, spans⟩ := spans.head
  obtain ⟨isName, leaves⟩ := spans.single
  obtain ⟨result, alike, gives⟩ :=
    understood.operand written starts same (.of_char isPoint (by decide))
  refine ⟨.field middle.current.line result name, by rw [Expr.unlined, Expr.unlined, alike],
    gives.expr_access ?_ ends⟩
  refine .of_succ (fun fuel => by rw [Reader.access]) (.line ?_)
  refine .atChar false (by simp [Token.isChar, isPoint]) (.onChar isPoint ?_)
  refine .step moves (.step (Reader.identifier_eq isName leaves) ?_)
  exact Gives.access_stop ends.stops.noIndex ends.stops.noField

theorem brackets {expression target result : Expr} {middle start : Reading}
    (gives : Gives surroundings Reader.primary before target middle)
    (isHere : middle.current.lexeme = .char '[')
    (moves : Reader.next surroundings middle = .ok () start) (inside : Gives surroundings
      (fun fuel => Reader.listAccess fuel middle.current.line target) start result after)
    (ends : after.Ends) (alike : result.unlined = expression.unlined) :
    Restores surroundings Reader.expr before expression after := by
  refine ⟨result, alike, gives.expr_access ?_ ends⟩
  refine .of_succ (fun fuel => by rw [Reader.access]) (.line ?_)
  refine .onChar isHere (.step moves (inside.bind ?_))
  exact Gives.access_stop ends.stops.noIndex ends.stops.noField

theorem index {list index : Expr} (understoodList : Understood surroundings signatures list)
    (understoodIndex : Understood surroundings signatures index) :
    Understood surroundings signatures (.index line list index) := by
  refine of_expr rfl ?_
  intro lexemes before after written spans same ends
  rw [Bare] at written
  obtain ⟨target, inner, writtenList, writtenIndex, rfl⟩ := written
  rw [List.append_assoc] at spans
  obtain ⟨middle, starts, spans⟩ := spans.split
  obtain ⟨start, stop, isHere, moves, kept, inside, closes, leaves⟩ := spans.between
  obtain ⟨listed, alikeList, givesList⟩ :=
    understoodList.operand writtenList starts same (.of_char isHere (by decide))
  obtain ⟨result, alike, gives⟩ := understoodIndex.enclosed writtenIndex inside
    (kept.trans (starts.signatures.trans same)) (.of_char closes (by decide))
  have opens := (Opens.enclosed (fun _ => Bare.opens index) writtenIndex).isChar inside
  refine brackets givesList isHere moves ?_ ends
    (by rw [Expr.unlined, Expr.unlined, alike, alikeList] :
      (Expr.index middle.current.line listed result).unlined = _)
  refine .of_succ (fun fuel => by rw [Reader.listAccess]) ?_
  refine .atChar false opens.2.1 (.atChar false opens.2.2 (gives.bind ?_))
  exact .onChar closes (.step leaves (.of_ok rfl))

/-- The end of a slice is read from its colon on. -/
theorem sliceEnd (line : Nat) (list : Expr) (start : Option Expr) {stop : Option Expr}
    {last : List Lexeme} (understood : ∀ bound ∈ stop, Understood surroundings signatures bound)
    (written : OptionalPiece surroundings signatures stop last)
    (spans : Spans surroundings before (.char ':' :: (last ++ [.char ']'])) after)
    (same : before.signatures = signatures) : ∃ result, unlinedOption result = unlinedOption stop ∧
      Gives surroundings (fun fuel => Reader.sliceEnd fuel line list start) before
        (.slice line list start result) after := by
  obtain ⟨first, closing, isHere, moves, kept, inside, closes, leaves⟩ := spans.between
  cases stop with
  | none =>
    rw [OptionalPiece] at written
    subst written
    cases inside
    refine ⟨none, rfl, .of_succ (fun fuel => by rw [Reader.sliceEnd]) (.step moves ?_)⟩
    refine .onChar closes ?_
    exact .step (rfl : (pure none : Reader (Option Expr)) surroundings first = .ok none first)
      (.passChar closes leaves (.of_ok rfl))
  | some bound =>
    rw [OptionalPiece] at written
    obtain ⟨result, alike, gives⟩ := (understood bound rfl).enclosed written inside
      (kept.trans same) (.of_char closes (by decide))
    have opens := (Opens.enclosed (fun _ => Bare.opens bound) written).isChar inside
    refine ⟨some result, by rw [unlinedOption, unlinedOption, alike],
      .of_succ (fun fuel => by rw [Reader.sliceEnd]) (.step moves ?_)⟩
    refine .atChar false opens.2.1 ?_
    have present : Gives surroundings (fun fuel => some <$> Reader.expr fuel) first (some result)
        closing := by
      simp only [map_eq_pure_bind]
      exact gives.bind (.of_ok rfl)
    exact present.bind (.passChar closes leaves (.of_ok rfl))

theorem slice {list : Expr} {start stop : Option Expr}
    (understoodList : Understood surroundings signatures list)
    (understoodStart : ∀ bound ∈ start, Understood surroundings signatures bound)
    (understoodStop : ∀ bound ∈ stop, Understood surroundings signatures bound) :
    Understood surroundings signatures (.slice line list start stop) := by
  refine of_expr rfl ?_
  intro lexemes before after written spans same ends
  rw [Bare] at written
  obtain ⟨target, first, last, writtenList, writtenStart, writtenStop, rfl⟩ := written
  simp only [List.append_assoc, List.cons_append] at spans
  obtain ⟨middle, starts, spans⟩ := spans.split
  have sameMiddle := starts.signatures.trans same
  obtain ⟨opened, isHere, moves, kept, spans⟩ := spans.head
  obtain ⟨colon, inside, spans⟩ := spans.split
  have sameColon := inside.signatures.trans (kept.trans sameMiddle)
  obtain ⟨_, _, isColon, _⟩ := spans.between
  obtain ⟨listed, alikeList, givesList⟩ :=
    understoodList.operand writtenList starts same (.of_char isHere (by decide))
  cases start with
  | none =>
    rw [OptionalPiece] at writtenStart
    subst writtenStart
    cases inside
    obtain ⟨result, alike, gives⟩ := sliceEnd middle.current.line listed none understoodStop
      writtenStop spans sameColon
    refine brackets givesList isHere moves ?_ ends
      (by rw [Expr.unlined, Expr.unlined, alike, alikeList] :
        (Expr.slice middle.current.line listed none result).unlined = _)
    refine .of_succ (fun fuel => by rw [Reader.listAccess]) ?_
    exact .atChar false (by simp [Token.isChar, isColon]) (.onChar isColon gives)
  | some bound =>
    rw [OptionalPiece] at writtenStart
    obtain ⟨from', alikeStart, givesStart⟩ := (understoodStart bound rfl).enclosed
      writtenStart inside (kept.trans sameMiddle) (.of_char isColon (by decide))
    have opens := (Opens.enclosed (fun _ => Bare.opens bound) writtenStart).isChar inside
    obtain ⟨result, alike, gives⟩ := sliceEnd middle.current.line listed (some from')
      understoodStop writtenStop spans sameColon
    refine brackets givesList isHere moves ?_ ends
      (by rw [Expr.unlined, Expr.unlined, alike, alikeList, unlinedOption, unlinedOption,
          alikeStart] :
        (Expr.slice middle.current.line listed (some from') result).unlined = _)
    refine .of_succ (fun fuel => by rw [Reader.listAccess]) ?_
    refine .atChar false opens.2.1 (.atChar false opens.2.2 (givesStart.bind ?_))
    exact .atChar false (by simp [Token.isChar, isColon]) (.onChar isColon gives)

theorem unary {operand : Expr} (isUnary : operator.isUnary = true)
    (understood : Understood surroundings signatures operand) :
    Understood surroundings signatures (.unary line operator operand) := by
  refine of_expr rfl ?_
  intro lexemes before after written spans same ends
  rw [Bare] at written
  obtain ⟨inner, written, rfl⟩ := written
  obtain ⟨_, isHere, moves, kept, spans⟩ := spans.head
  obtain ⟨result, alike, gives⟩ :=
    understood.operand written spans (kept.trans same) ends.follows
  refine ⟨.unary before.current.line operator result, by rw [Expr.unlined, Expr.unlined, alike], ?_⟩
  exact (Gives.primary_unary isUnary isHere moves gives ends).expr_primary ends

theorem operation {left right expression : Expr} {first second : List Lexeme}
    (understoodLeft : Understood surroundings signatures left)
    (understoodRight : Understood surroundings signatures right)
    (writtenLeft : Enclosed left.isCompound.toNat (Bare surroundings signatures left) first)
    (writtenRight : Enclosed right.isCompound.toNat (Bare surroundings signatures right) second)
    (spans : Spans surroundings before (first ++ .operator operator.spelling :: second) after)
    (same : before.signatures = signatures) (ends : after.Ends)
    (joins : ∀ line leftRead rightRead, leftRead.unlined = left.unlined →
      rightRead.unlined = right.unlined → ∃ result, result.unlined = expression.unlined ∧
        Reader.join line operator leftRead rightRead surroundings after = .ok result after) :
    Restores surroundings Reader.expr before expression after := by
  obtain ⟨middle, starts, spans⟩ := spans.split
  obtain ⟨_, isHere, moves, kept, spans⟩ := spans.head
  obtain ⟨leftRead, alikeLeft, givesLeft⟩ :=
    understoodLeft.operand writtenLeft starts same (.of_operator isHere)
  obtain ⟨rightRead, alikeRight, givesRight⟩ := understoodRight.operand writtenRight spans
    (kept.trans (starts.signatures.trans same)) ends.follows
  obtain ⟨result, alike, joined⟩ :=
    joins middle.current.line leftRead rightRead alikeLeft alikeRight
  exact ⟨result, alike, .expr_operator givesLeft isHere moves givesRight ends joined⟩

theorem binary {left right : Expr} (differs : operator ≠ .assign)
    (understoodLeft : Understood surroundings signatures left)
    (understoodRight : Understood surroundings signatures right) :
    Understood surroundings signatures (.binary line operator left right) := by
  refine of_expr rfl ?_
  intro lexemes before after written spans same ends
  rw [Bare] at written
  obtain ⟨first, second, writtenLeft, writtenRight, rfl⟩ := written
  apply operation understoodLeft understoodRight writtenLeft writtenRight spans same ends
  intro here leftRead rightRead alikeLeft alikeRight
  refine ⟨.binary here operator leftRead rightRead, ?_, ?_⟩
  · rw [Expr.unlined, Expr.unlined, alikeLeft, alikeRight]
  · rw [Reader.join, if_neg differs]
    rfl

theorem assignment {target value : Expr} (isTarget : target.isTarget = true)
    (understoodTarget : Understood surroundings signatures target)
    (understoodValue : Understood surroundings signatures value) :
    Understood surroundings signatures (.assignment line target value) := by
  refine of_expr rfl ?_
  intro lexemes before after written spans same ends
  rw [Bare] at written
  obtain ⟨first, second, writtenTarget, writtenValue, rfl⟩ := written
  apply operation understoodTarget understoodValue writtenTarget writtenValue spans same ends
  intro here targetRead valueRead alikeTarget alikeValue
  refine ⟨.assignment here targetRead valueRead, ?_, ?_⟩
  · rw [Expr.unlined, Expr.unlined, alikeTarget, alikeValue]
  · have stillTarget : targetRead.isTarget = true := by
      rw [← Expr.isTarget_unlined, alikeTarget, Expr.isTarget_unlined]
      exact isTarget
    rw [Reader.join, if_pos rfl, if_pos stillTarget]
    rfl

end Understood

mutual

/-- Every expression that can be written is read. -/
theorem understood : (expression : Expr) → Legal surroundings signatures expression →
    Understood surroundings signatures expression
  | .boolean _ _, _ => .boolean
  | .number _ _, _ => .number
  | .string _ _, _ => .string
  | .identifier _ _, legal => by
    rw [Legal] at legal
    exact .identifier legal.2
  | .list _ elements, legal => by
    rw [Legal] at legal
    exact .list (understood_all elements legal)
  | .index _ list index, legal => by
    rw [Legal] at legal
    exact .index (understood list legal.1) (understood index legal.2)
  | .slice _ list start stop, legal => by
    rw [Legal] at legal
    exact .slice (understood list legal.1) (understood_option start legal.2.1)
      (understood_option stop legal.2.2)
  | .entity _ _ _ fields, legal => by
    rw [Legal] at legal
    obtain ⟨_, ⟨_, known, nodup, lengths, _⟩, legal⟩ := legal
    exact .entity known nodup lengths (understood_options fields legal)
  | .field _ entity _, legal => by
    rw [Legal] at legal
    exact .field (understood entity legal.1)
  | .binary _ _ left right, legal => by
    rw [Legal] at legal
    exact .binary legal.1 (understood left legal.2.1) (understood right legal.2.2)
  | .unary _ _ operand, legal => by
    rw [Legal] at legal
    exact .unary legal.1 (understood operand legal.2)
  | .assignment _ target value, legal => by
    rw [Legal] at legal
    exact .assignment legal.1 (understood target legal.2.1) (understood value legal.2.2)
  | .call _ _ arguments, legal => by
    rw [Legal] at legal
    exact .call (understood_all arguments legal.2)

theorem understood_all : (expressions : List Expr) →
    LegalAll surroundings signatures expressions →
    ∀ expression ∈ expressions, Understood surroundings signatures expression
  | [], _ => nofun
  | first :: rest, legal => by
    rw [LegalAll] at legal
    have here := understood first legal.1
    have later := understood_all rest legal.2
    exact List.forall_mem_cons.mpr ⟨here, later⟩

theorem understood_option : (expression : Option Expr) →
    LegalOption surroundings signatures expression →
    ∀ value ∈ expression, Understood surroundings signatures value
  | none, _ => nofun
  | some expression, legal => by
    rw [LegalOption] at legal
    rintro value ⟨⟩
    exact understood expression legal

theorem understood_options : (expressions : List (Option Expr)) →
    LegalOptions surroundings signatures expressions →
    ∀ expression ∈ expressions, ∀ value ∈ expression, Understood surroundings signatures value
  | [], _ => nofun
  | first :: rest, legal => by
    rw [LegalOptions] at legal
    have here := understood_option first legal.1
    have later := understood_options rest legal.2
    exact List.forall_mem_cons.mpr ⟨here, later⟩

end

/-! ## Every expression can be written -/

def Writable (property : List Lexeme → Prop) : Prop :=
  ∃ lexemes, property lexemes ∧ ∀ lexeme ∈ lexemes, Spellable lexeme

theorem spellable_char {c : Char} (member : c ∈ Token.delimiters) : Spellable (.char c) :=
  ⟨[c], rfl, member⟩

theorem spellable_operator (operator : Operator) : Spellable (.operator operator.spelling) :=
  ⟨operator.spelling.toList, rfl, operator, rfl⟩

private theorem spellable_enclose {depth : Nat} (spellable : ∀ lexeme ∈ lexemes, Spellable lexeme) :
    ∀ lexeme ∈ enclose depth lexemes, Spellable lexeme := by
  induction depth with
  | zero => exact spellable
  | succ depth ih =>
    intro lexeme member
    simp only [enclose, List.mem_cons, List.mem_append, List.not_mem_nil, or_false] at member
    rcases member with rfl | member | rfl
    · exact spellable_char (by decide)
    · exact ih lexeme member
    · exact spellable_char (by decide)

theorem Writable.enclosed {least : Nat} {property : List Lexeme → Prop}
    (writable : Writable property) : Writable (Enclosed least property) := by
  obtain ⟨lexemes, holds, spellable⟩ := writable
  exact ⟨enclose least lexemes, ⟨least, lexemes, Nat.le_refl _, holds, rfl⟩,
    spellable_enclose spellable⟩

theorem spellable_separated {pieces : List (List Lexeme)}
    (spellable : ∀ piece ∈ pieces, ∀ lexeme ∈ piece, Spellable lexeme) :
    ∀ lexeme ∈ separated pieces, Spellable lexeme := by
  fun_induction separated pieces with
  | case1 => nofun
  | case2 piece => exact spellable piece List.mem_cons_self
  | case3 piece rest _ ih =>
    intro lexeme member
    simp only [List.mem_append, List.mem_cons] at member
    rcases member with member | rfl | member
    · exact spellable piece List.mem_cons_self lexeme member
    · exact spellable_char (by decide)
    · exact ih
        (fun other isPiece => spellable other (List.mem_cons_of_mem _ isPiece)) lexeme member

private theorem spellable_between {first last : Char} (starts : first ∈ Token.delimiters)
    (ends : last ∈ Token.delimiters) (spellable : ∀ lexeme ∈ lexemes, Spellable lexeme) :
    ∀ lexeme ∈ .char first :: lexemes ++ [.char last], Spellable lexeme := by
  rw [List.forall_mem_append, List.forall_mem_cons, List.forall_mem_singleton]
  exact ⟨⟨spellable_char starts, spellable⟩, spellable_char ends⟩

private theorem spellable_operation {operator : Operator} {first second : List Lexeme}
    (left : ∀ lexeme ∈ first, Spellable lexeme) (right : ∀ lexeme ∈ second, Spellable lexeme) :
    ∀ lexeme ∈ first ++ .operator operator.spelling :: second, Spellable lexeme := by
  rw [List.forall_mem_append, List.forall_mem_cons]
  exact ⟨left, spellable_operator operator, right⟩

mutual

/-- Every expression that is legal can be written. -/
theorem writable : (expression : Expr) → Legal surroundings signatures expression →
    Writable (Bare surroundings signatures expression)
  | .boolean _ value, _ => by
    refine ⟨[.boolean value], by rw [Bare], ?_⟩
    rw [List.forall_mem_singleton]
    exact ⟨_, rfl⟩
  | .number _ value, legal => by
    rw [Legal] at legal
    obtain ⟨spelling, spellable⟩ := legal
    refine ⟨[.number spelling value], by rw [Bare]; exact ⟨spelling, rfl⟩, ?_⟩
    rw [List.forall_mem_singleton]
    exact spellable
  | .string _ value, legal => by
    rw [Legal] at legal
    refine ⟨[.string value], by rw [Bare], ?_⟩
    rw [List.forall_mem_singleton]
    exact legal
  | .identifier _ name, legal => by
    rw [Legal] at legal
    refine ⟨[.identifier name], by rw [Bare], ?_⟩
    rw [List.forall_mem_singleton]
    exact legal.1
  | .list _ elements, legal => by
    rw [Legal] at legal
    obtain ⟨pieces, written, spellable⟩ := writable_all elements legal
    refine ⟨_, by rw [Bare]; exact ⟨pieces, written, rfl⟩, ?_⟩
    exact spellable_between (by decide) (by decide) (spellable_separated spellable)
  | .index _ list index, legal => by
    rw [Legal] at legal
    obtain ⟨target, writtenList, spellableList⟩ := (writable list legal.1).enclosed
    obtain ⟨inner, writtenIndex, spellableIndex⟩ := (writable index legal.2).enclosed
    refine ⟨_, by rw [Bare]; exact ⟨target, inner, writtenList, writtenIndex, rfl⟩, ?_⟩
    rw [List.append_assoc, List.forall_mem_append]
    exact ⟨spellableList, spellable_between (by decide) (by decide) spellableIndex⟩
  | .slice _ list start stop, legal => by
    rw [Legal] at legal
    obtain ⟨target, writtenList, spellableList⟩ := (writable list legal.1).enclosed
    obtain ⟨first, writtenStart, spellableStart⟩ := writable_option start legal.2.1
    obtain ⟨last, writtenStop, spellableStop⟩ := writable_option stop legal.2.2
    refine ⟨_, by
      rw [Bare]
      exact ⟨target, first, last, writtenList, writtenStart, writtenStop, rfl⟩, ?_⟩
    simp only [List.forall_mem_append, List.forall_mem_cons]
    exact ⟨⟨⟨spellableList, spellable_char (by decide), spellableStart⟩,
      spellable_char (by decide), spellableStop⟩, spellable_char (by decide), nofun⟩
  | .entity _ name symbol fields, legal => by
    rw [Legal] at legal
    obtain ⟨⟨head, names, spellableHead⟩, ⟨signature, known, _, lengths, spellableNames⟩, legal⟩ :=
      legal
    obtain ⟨pieces, written, spellable⟩ := writable_fields fields legal lengths spellableNames
    refine ⟨_, by rw [Bare]; exact ⟨head, signature, pieces, names, known, written, rfl⟩, ?_⟩
    rw [List.append_assoc, List.forall_mem_append]
    exact ⟨spellableHead,
      spellable_between (by decide) (by decide) (spellable_separated spellable)⟩
  | .field _ entity name, legal => by
    rw [Legal] at legal
    obtain ⟨target, written, spellable⟩ := (writable entity legal.1).enclosed
    refine ⟨_, by rw [Bare]; exact ⟨target, written, rfl⟩, ?_⟩
    rw [List.forall_mem_append, List.forall_mem_cons, List.forall_mem_singleton]
    exact ⟨spellable, spellable_char (by decide), legal.2⟩
  | .binary _ _ left right, legal | .assignment _ left right, legal => by
    rw [Legal] at legal
    obtain ⟨first, writtenLeft, spellableLeft⟩ := (writable left legal.2.1).enclosed
    obtain ⟨second, writtenRight, spellableRight⟩ := (writable right legal.2.2).enclosed
    refine ⟨_, by rw [Bare]; exact ⟨first, second, writtenLeft, writtenRight, rfl⟩, ?_⟩
    exact spellable_operation spellableLeft spellableRight
  | .unary _ operator operand, legal => by
    rw [Legal] at legal
    obtain ⟨inner, written, spellable⟩ := (writable operand legal.2).enclosed
    refine ⟨_, by rw [Bare]; exact ⟨inner, written, rfl⟩, ?_⟩
    rw [List.forall_mem_cons]
    exact ⟨spellable_operator operator, spellable⟩
  | .call _ callee arguments, legal => by
    rw [Legal] at legal
    obtain ⟨⟨head, names, spellableHead⟩, legal⟩ := legal
    obtain ⟨pieces, written, spellable⟩ := writable_all arguments legal
    refine ⟨_, by rw [Bare]; exact ⟨head, pieces, names, written, rfl⟩, ?_⟩
    rw [List.append_assoc, List.forall_mem_append]
    exact ⟨spellableHead,
      spellable_between (by decide) (by decide) (spellable_separated spellable)⟩

theorem writable_all : (expressions : List Expr) →
    LegalAll surroundings signatures expressions →
    ∃ pieces, Pieces surroundings signatures expressions pieces ∧
      ∀ piece ∈ pieces, ∀ lexeme ∈ piece, Spellable lexeme
  | [], _ => ⟨[], by rw [Pieces], nofun⟩
  | first :: rest, legal => by
    rw [LegalAll] at legal
    obtain ⟨piece, written, spellable⟩ := (writable first legal.1).enclosed
    obtain ⟨others, writtenRest, spellableRest⟩ := writable_all rest legal.2
    refine ⟨piece :: others, by rw [Pieces]; exact ⟨piece, others, written, writtenRest, rfl⟩, ?_⟩
    exact List.forall_mem_cons.mpr ⟨spellable, spellableRest⟩

theorem writable_option : (expression : Option Expr) →
    LegalOption surroundings signatures expression →
    Writable (OptionalPiece surroundings signatures expression)
  | none, _ => ⟨[], by rw [OptionalPiece], nofun⟩
  | some expression, legal => by
    rw [LegalOption] at legal
    obtain ⟨lexemes, written, spellable⟩ := (writable expression legal).enclosed
    exact ⟨lexemes, by rw [OptionalPiece]; exact written, spellable⟩

theorem writable_fields : (fields : List (Option Expr)) →
    LegalOptions surroundings signatures fields → {names : List String} →
    fields.length = names.length → (∀ name ∈ names, Spellable (.identifier name)) →
    ∃ pieces, FieldPieces surroundings signatures names fields pieces ∧
      ∀ piece ∈ pieces, ∀ lexeme ∈ piece, Spellable lexeme
  | [], _, _, _, _ => ⟨[], by simp [FieldPieces], nofun⟩
  | _ :: _, _, [], lengths, _ => by cases lengths
  | none :: rest, legal, name :: names, lengths, spellableNames => by
    rw [LegalOptions] at legal
    obtain ⟨pieces, written, spellable⟩ := writable_fields rest legal.2 (Nat.succ.inj lengths)
      (List.forall_mem_cons.mp spellableNames).2
    exact ⟨pieces, by rw [FieldPieces]; exact written, spellable⟩
  | some value :: rest, legal, name :: names, lengths, spellableNames => by
    rw [LegalOptions, LegalOption] at legal
    obtain ⟨piece, written, spellable⟩ := (writable value legal.1).enclosed
    obtain ⟨others, writtenRest, spellableRest⟩ := writable_fields rest legal.2
      (Nat.succ.inj lengths) (List.forall_mem_cons.mp spellableNames).2
    refine ⟨_, by rw [FieldPieces]; exact ⟨piece, others, written, writtenRest, rfl⟩, ?_⟩
    rw [List.forall_mem_cons]
    refine ⟨?_, spellableRest⟩
    rw [List.forall_mem_cons, List.forall_mem_cons]
    exact ⟨(List.forall_mem_cons.mp spellableNames).1, spellable_operator _, spellable⟩

end

/-! ## The text of an expression -/

/-- The text writes the expression, with any parentheses around it. -/
def Writes (surroundings : Surroundings) (signatures : Table (List String)) (expression : Expr)
    (text : String) : Prop :=
  ∃ lexemes, Enclosed 0 (Bare surroundings signatures expression) lexemes ∧
    Token.Spaced lexemes text.toList

private theorem not_backslash_of_spells {lexeme : Lexeme} {chars : List Char}
    (spells : Token.Spells lexeme chars) : lexeme ≠ .char '\\' := by
  rintro rfl
  obtain ⟨_, member⟩ := spells
  exact absurd member (by decide)

theorem next_of_rest (surroundings : Surroundings) {reading : Reading} {token : Token}
    {rest : List Token}
    (follows : reading.rest = token :: rest) (plain : token.lexeme ≠ .char '\\') :
    Reader.next surroundings reading = .ok () { reading with current := token, rest := rest } := by
  have moves : nextToken false reading.rest = .to token rest := by
    rw [follows]
    unfold nextToken
    simp [Token.isChar, plain]
  rw [Reader.next, Reader.move_eq, moves]

/-- The tokens of a line are passed over one by one. -/
theorem spans_tokens {tokens : List Token} {last : Token} {reading : Reading}
    (plain : ∀ token ∈ tokens ++ [last], token.lexeme ≠ .char '\\')
    (shows : reading.current :: reading.rest = tokens ++ [last]) :
    Spans surroundings reading (tokens.map Token.lexeme)
      { reading with current := last, rest := [] } := by
  induction tokens generalizing reading with
  | nil =>
    cases reading
    obtain ⟨rfl, rfl⟩ := List.cons.inj shows
    exact .nil
  | cons token tokens ih =>
    obtain ⟨rfl, more⟩ := List.cons.inj shows
    obtain ⟨next, rest, follows⟩ : ∃ next rest, tokens ++ [last] = next :: rest :=
      List.exists_cons_of_ne_nil (by simp)
    have later : ∀ token ∈ tokens ++ [last], token.lexeme ≠ .char '\\' :=
      (List.forall_mem_cons.mp plain).2
    have moves := next_of_rest surroundings (more.trans follows)
      (later next (follows ▸ List.mem_cons_self))
    exact .cons rfl moves rfl (ih later follows.symm)

/-- An expression that is legal where it stands can be written; and whatever text writes it, with
any blanks and any spellings of its numbers, the text is scanned and read to the same expression
but for its lines, up to the end of the text. -/
theorem expr_of_written {expression : Expr} (legal : Legal surroundings signatures expression) :
    (∃ text, Writes surroundings signatures expression text) ∧
    ∀ text, Writes surroundings signatures expression text →
      ∃ start, Reading.start surroundings (Token.scan text) signatures = .ok () start ∧
        ∀ fuel, 6 * (Token.scan text).tokens.length ≤ fuel + 3 →
          ∃ result final, Reader.expr fuel surroundings start = .ok result final ∧
            result.unlined = expression.unlined ∧ final.current.lexeme = .endOfFile ∧
            final.rest = [] := by
  constructor
  · obtain ⟨lexemes, written, spellable⟩ := (writable expression legal).enclosed
    obtain ⟨chars, spaced⟩ := Token.exists_spaced spellable
    refine ⟨String.ofList chars, lexemes, written, ?_⟩
    rw [String.toList_ofList]
    exact spaced
  · rintro text ⟨lexemes, written, spaced⟩
    obtain ⟨tokens, last, scanned, same, isEnd⟩ := Token.scanLines_spaced spaced 1
    have scan : Token.scan text = ⟨tokens ++ [last], none⟩ := scanned
    have plain : ∀ token ∈ tokens ++ [last], token.lexeme ≠ .char '\\' := by
      rw [List.forall_mem_append, List.forall_mem_singleton]
      refine ⟨?_, by simp [isEnd]⟩
      intro token member
      obtain ⟨chars, spells⟩ := spaced.spelled token.lexeme (same ▸ List.mem_map_of_mem member)
      exact not_backslash_of_spells spells
    obtain ⟨first, rest, split⟩ : ∃ first rest, tokens ++ [last] = first :: rest :=
      List.exists_cons_of_ne_nil (by simp)
    let start : Reading := ⟨first, rest, none, signatures, []⟩
    have spans : Spans surroundings start lexemes { start with current := last, rest := [] } := by
      rw [← same]
      exact spans_tokens plain split.symm
    obtain ⟨result, alike, enough, reads⟩ :=
      (understood expression legal).enclosed written spans rfl (.of_end isEnd)
    rw [scan]
    refine ⟨start, next_of_rest surroundings split (plain first (split ▸ List.mem_cons_self)), ?_⟩
    intro fuel enoughFuel
    refine ⟨result, { start with current := last, rest := [] }, ?_, alike, isEnd, rfl⟩
    have within : start.Within rest.length := by
      refine ⟨.inr ⟨last, ?_, by simp [Token.isEnd, isEnd]⟩, Nat.le_refl _⟩
      change (first :: rest).getLast? = some last
      rw [← split, List.getLast?_append]
      rfl
    have length : rest.length + 1 = (tokens ++ [last]).length := by
      rw [split, List.length_cons]
    have least : 6 * rest.length + 3 ≤ fuel := by
      simp only at enoughFuel
      omega
    have covers : (Setting.steady surroundings).Covers _ fuel (max enough _) :=
      .inr ⟨trivial, least, Nat.le_max_right _ _⟩
    have same := (Setting.Pairs.steady
      (((Setting.steady surroundings).expressions _ _).expr covers) within.holds).1
    exact same.symm.trans (reads _ (Nat.le_max_left _ _))

end Reading

def withAlias : Surroundings := ⟨"", { id := "main", dependencies := ["lib"] }, {}⟩

def pairSignature : Table (List String) := ⟨[(Name.ofType "main" "Pair", ["first", "second"])]⟩

/-- The tree of `a[-25] = Pair(second = lib::f("s")[:b.size])`. -/
def pairTree : Expr :=
  .assignment 1 (.index 1 (.identifier 1 "a") (.unary 1 .minus (.number 1 ⟨0x4039000000000000⟩)))
    (.entity 1 (Name.ofType "main" "Pair") "Pair"
      [none, some (.slice 1 (.call 1 (Name.ofForeignFunction "main" "lib" "f") [.string 1 "s"]) none
        (some (.field 1 (.identifier 1 "b") "size")))])

theorem pairTree_read_back :
    ∃ text start result final, Writes withAlias pairSignature pairTree text ∧
      Reading.start withAlias (Token.scan text) pairSignature = .ok () start ∧
      Reader.expr (6 * (Token.scan text).tokens.length) withAlias start = .ok result final ∧
      result.unlined = pairTree.unlined ∧ final.current.lexeme = .endOfFile := by
  have word : ∀ name ∈ ["a", "b", "f", "lib", "Pair", "first", "second", "size"],
      Spellable (.identifier name) := by
    simp only [List.forall_mem_cons]
    exact ⟨⟨_, rfl, ⟨_, _, rfl, rfl, rfl⟩, rfl⟩, ⟨_, rfl, ⟨_, _, rfl, rfl, rfl⟩, rfl⟩,
      ⟨_, rfl, ⟨_, _, rfl, rfl, rfl⟩, rfl⟩, ⟨_, rfl, ⟨_, _, rfl, rfl, rfl⟩, rfl⟩,
      ⟨_, rfl, ⟨_, _, rfl, rfl, rfl⟩, rfl⟩, ⟨_, rfl, ⟨_, _, rfl, rfl, rfl⟩, rfl⟩,
      ⟨_, rfl, ⟨_, _, rfl, rfl, rfl⟩, rfl⟩, ⟨_, rfl, ⟨_, _, rfl, rfl, rfl⟩, rfl⟩, nofun⟩
  have number : Spellable (.number "25" ⟨0x4039000000000000⟩) :=
    ⟨_, rfl, ⟨_, _, rfl, rfl, rfl⟩, by decide +kernel⟩
  have string : Spellable (.string "s") := ⟨_, rfl, by decide⟩
  have callee : NamesFunction withAlias pairSignature (Name.ofForeignFunction "main" "lib" "f")
      [.identifier "lib", .scope, .identifier "f"] :=
    NamesFunction.foreign rfl rfl
  have entity : NamesEntity withAlias pairSignature (Name.ofType "main" "Pair") "Pair"
      [.identifier "Pair"] :=
    NamesEntity.own rfl
  have legal : Legal withAlias pairSignature pairTree := by
    simp only [pairTree, Legal, LegalAll, LegalOption, LegalOptions]
    refine ⟨rfl, ⟨⟨word "a" (by simp), by decide⟩, rfl, "25", number⟩,
      ⟨_, entity, ?_⟩, ⟨["first", "second"], rfl, by decide, rfl, ?_⟩, trivial,
      ⟨⟨⟨_, callee, ?_⟩, string, trivial⟩, trivial, ⟨word "b" (by simp), by decide⟩,
        word "size" (by simp)⟩, trivial⟩
    · rw [List.forall_mem_singleton]
      exact word "Pair" (by simp)
    · simp only [List.forall_mem_cons]
      exact ⟨word "first" (by simp), word "second" (by simp), nofun⟩
    · simp only [List.forall_mem_cons]
      exact ⟨word "lib" (by simp), ⟨_, rfl⟩, word "f" (by simp), nofun⟩
  obtain ⟨⟨text, writes⟩, reads⟩ := expr_of_written legal
  obtain ⟨start, starts, read⟩ := reads text writes
  obtain ⟨result, final, outcome, alike, isEnd, _⟩ :=
    read (6 * (Token.scan text).tokens.length) (Nat.le_add_right _ _)
  exact ⟨text, start, result, final, writes, starts, outcome, alike, isEnd⟩

end Kronk.Source
