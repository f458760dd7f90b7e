import Kronk.Proofs.Correspondence
import Kronk.Source.StmtReader

/-!
# Reading statements in two ways

The readers of statements do the same in both ways, too.  A statement that was read belongs to its
module, mentions only names of the module and of the modules that it includes, and no entity is
defined whose signature was read before.
-/

namespace Kronk.Source

variable {token : Token} {message : String}

namespace Setting

variable {setting : Setting} {definitions : List EntityDefinition} {fuel other count : Nat}

namespace Pairs

variable {α : Type} {before : Reading → Prop} {after : α → Reading → Prop} {one another : Reader α}

theorem demandChar {c : Char} {error : ReadError}
    (pairs : setting.Pairs (fun reading => before reading ∧ reading.current.isChar c = true) one
      another after) :
    setting.Pairs before
      (do
        if !(← Reader.atChar c) then Reader.fail error
        one)
      (do
        if !(← Reader.atChar c) then Reader.fail error
        another) after := by
  refine (atChar c).bind fun here => .guard fun isHere => ?_
  cases here with
  | true => exact pairs
  | false => exact absurd rfl isHere

theorem atTerminator :
    setting.Pairs before Reader.atTerminator Reader.atTerminator fun ended reading =>
      before reading ∧ reading.current.endsStatement = ended :=
  fun _ holds => ⟨rfl, holds, rfl⟩

theorem isEnd_of_endsStatement (ends : token.endsStatement = true) : token.isEnd = false := by
  rcases Bool.or_eq_true_iff.mp ends with isLine | isSemicolon
  · simp [Token.isEnd, eq_of_beq isLine]
  · exact (isSolid_of_isChar isSemicolon).1

theorem nextSkipLines (notEnd : ∀ reading, before reading →
      setting.Holds definitions count reading ∧ reading.current.isEnd = false) :
    setting.Pairs before Reader.nextSkipLines Reader.nextSkipLines fun _ =>
      setting.Passed definitions count :=
  passes true fun reading start =>
    ⟨(notEnd reading start).1, (notEnd reading start).2, fun _ => rfl⟩

theorem skipLines :
    setting.Pairs (setting.Holds definitions count) Reader.skipLines Reader.skipLines fun _ =>
      setting.Holds definitions count := by
  refine current.bind fun token => .ite (fun _ => ?_) fun _ => .pure fun _ holds => holds.1
  exact (move true).weaken (fun _ holds => ⟨holds.1, fun _ => rfl⟩) fun _ _ holds => holds

theorem traced (pairs : setting.Pairs before one another after)
    (stable : ∀ value reading trace, after value reading → after value { reading with trace }) :
    setting.Pairs before (Reader.traced message one) (Reader.traced message another) after := by
  intro reading holds
  obtain ⟨same, reached⟩ := pairs reading holds
  unfold Reader.traced
  rw [same]
  cases outcome : one setting.vantage.first reading with
  | ok value final =>
    rw [outcome] at reached
    exact ⟨rfl, stable value final _ reached⟩
  | error failure final =>
    rw [outcome] at reached
    exact ⟨rfl, reached⟩

theorem overTerminator {one another : Bool → Reader α}
    (pairs : ∀ terminated, setting.Pairs (setting.Holds definitions count) (one terminated)
      (another terminated) after) :
    setting.Pairs (setting.Holds definitions count)
      (do
        let terminated ← Reader.atTerminator
        if terminated then Reader.nextSkipLines
        one terminated)
      (do
        let terminated ← Reader.atTerminator
        if terminated then Reader.nextSkipLines
        another terminated) after := by
  refine atTerminator.bind fun terminated => .ite (fun isEnded => ?_) fun _ => ?_
  · refine (nextSkipLines fun _ holds =>
      ⟨holds.1, isEnd_of_endsStatement (holds.2.trans isEnded)⟩).bind fun _ => ?_
    exact (pairs terminated).starting fun _ passed => passed.holds
  · exact (pairs terminated).starting fun _ holds => holds.1

theorem sign {c : Char} (definition : EntityDefinition)
    (new : setting.worded → setting.known.contains definition.name = false ∧
      definition.name ∉ definitions.map EntityDefinition.name) :
    setting.Pairs (setting.At c definitions count) (modify fun reading => { reading with
          signatures :=
            reading.signatures.insert definition.name (definition.fields.map Prod.fst) })
      (modify fun reading =>
        { reading with
          signatures :=
            reading.signatures.insert definition.name (definition.fields.map Prod.fst) })
      fun _ reading => setting.At c (definitions ++ [definition]) count reading :=
  fun _ holds => ⟨rfl, ⟨fun worded => (holds.1.recorded worded).sign (new worded).1 (new worded).2,
    fun bounded => ⟨(holds.1.within bounded).closed, (holds.1.within bounded).length_le⟩⟩, holds.2⟩

end Pairs

open Pairs

/-! ## Simple statements -/

/-- Statements that were read belong to the module. -/
def Belong (setting : Setting) (written : List Stmt) : Prop :=
  setting.worded → ∀ part ∈ written, part.BelongsTo setting.vantage.module.id

namespace Belong

theorem nil : setting.Belong [] := by
  intro _ _ member
  cases member

theorem cons {stmt : Stmt} {rest : List Stmt}
    (belongs : setting.worded → stmt.BelongsTo setting.vantage.module.id)
    (laterBelongs : setting.Belong rest) : setting.Belong (stmt :: rest) := by
  intro worded part member
  rcases List.mem_cons.mp member with rfl | later
  · exact belongs worded
  · exact laterBelongs worded part later

theorem append {first second : List Stmt} (belongs : setting.Belong first)
    (laterBelongs : setting.Belong second) : setting.Belong (first ++ second) := by
  intro worded part member
  rcases List.mem_append.mp member with earlier | later
  · exact belongs worded part earlier
  · exact laterBelongs worded part later

end Belong

/-- A reader of something with statements in it, from its first token on. -/
abbrev Finds {α : Type} (setting : Setting) (definitions : List EntityDefinition) (count : Nat)
    (one other : Reader α) (parts : α → List Stmt) (holds : α → Prop) : Prop :=
  setting.Pairs (fun reading => setting.Holds definitions count reading ∧ reading.current.IsSolid)
    one other fun value reading => setting.Passed (definitions ++ definitionsIn (parts value)) count
      reading ∧ setting.Belong (parts value) ∧ holds value

abbrev FindsStmt (setting : Setting) (definitions : List EntityDefinition) (count : Nat)
    (one other : Reader Stmt) : Prop :=
  setting.Finds definitions count one other Stmt.within (Stmt.Consults setting.names)

theorem found {stmt : Stmt} (alone : stmt.within = [stmt]) (noEntity : definitionsIn [stmt] = [])
    (belongs : setting.worded → stmt.BelongsTo setting.vantage.module.id)
    (known : stmt.Consults setting.names) :
    setting.Pairs (setting.Holds definitions count) (pure stmt) (pure stmt) fun stmt reading =>
      setting.Holds (definitions ++ definitionsIn stmt.within) count reading ∧
        setting.Belong stmt.within ∧ stmt.Consults setting.names := by
  refine .pure fun reading holds => ?_
  rw [alone, noEntity, List.append_nil]
  exact ⟨holds, .cons belongs .nil, known⟩

theorem leading {α : Type} {parts : α → List Stmt} {holds : α → Prop} {one another : Nat → Reader α}
    (later : ∀ line fewer, (setting.bounded → fewer < count) →
      setting.Pairs (setting.Holds definitions fewer) (one line) (another line)
        fun value reading =>
          setting.Holds (definitions ++ definitionsIn (parts value)) fewer reading ∧
            setting.Belong (parts value) ∧ holds value) :
    setting.Finds definitions count
      (do
        let line ← Reader.line
        Reader.next
        one line)
      (do
        let line ← Reader.line
        Reader.next
        another line) parts holds :=
  line.bind fun line => (nextSolid fun _ holds => holds).bind fun _ => .pass (later line)

theorem declaration (covers : setting.Covers (8 * count + 4) fuel other) :
    setting.FindsStmt definitions count (Reader.declaration fuel) (Reader.declaration other) := by
  refine leading fun line fewer less => ?_
  refine (identifier _).kept.bind fun name => .given fun _ => ?_
  refine .ifChar (.closing ?_) (current.bind fun token => .ite (fun isAssigned => ?_) fun _ =>
    .fail)
  · refine .bind (typeName none (covers.later less (by omega))) fun type => ?_
    exact .given fun known => found rfl rfl (fun _ => trivial) known
  · refine .closingAt (by simp [Token.IsSolid, Token.isEnd, isAssigned]) ?_
    have covered : setting.Covers (6 * fewer + 3) fuel other :=
      covers.later less (by omega)
    exact ((setting.expressions fuel other).expr covered).kept.bind fun value =>
      .given fun known => found rfl rfl (fun _ => trivial) known

theorem fieldDefinitions (mangled symbol : String) {fields : List (String × TypeName)}
    (known : ∀ field ∈ fields, field.2.Consults setting.names)
    (covers : setting.Covers (count + 1) fuel other) :
    setting.ReadsTo '}' definitions count (Reader.fieldDefinitions mangled symbol fuel fields)
      (Reader.fieldDefinitions mangled symbol other fields) fun fields =>
        ∀ field ∈ fields, field.2.Consults setting.names := by
  induction fuel generalizing other count fields with
  | zero =>
    obtain ⟨free, rfl⟩ := covers.zero (Nat.succ_pos _)
    exact .cutOff free
  | succ fuel ih =>
    obtain ⟨other, rfl⟩ := covers.exists_succ (Nat.succ_pos _)
    refine (identifier _).bind fun field => .given fun _ => .passTo fun fewer less => ?_
    refine .guard fun _ => (overChar _ _).bind fun _ => ?_
    refine .bind (typeName _ (covers.fewer less (by omega))) fun type =>
      .given fun knownType => ?_
    have extended : ∀ pair ∈ fields ++ [(field, type)], pair.2.Consults setting.names := by
      intro pair member
      rcases List.mem_append.mp member with earlier | last
      · exact known pair earlier
      · rw [List.mem_singleton.mp last]
        exact knownType
    refine .ifChar (.pure fun _ holds => ⟨holds, extended⟩) (atTerminator.bind fun ended => ?_)
    refine .guard fun isEnded => ?_
    have notEnd : ∀ reading, setting.Holds definitions fewer reading ∧
        reading.current.endsStatement = ended →
          setting.Holds definitions fewer reading ∧ reading.current.isEnd = false := by
      rintro reading ⟨holds, rfl⟩
      exact ⟨holds, isEnd_of_endsStatement (by simpa using isEnded)⟩
    refine (nextSkipLines notEnd).bind fun _ => .starting (current.bind fun token => ?_)
      fun _ passed => passed.holds
    refine .guard fun _ => .starting (.ifChar (.pure fun _ holds => ⟨holds, extended⟩) ?_)
      fun _ holds => holds.1
    exact ih extended (covers.fewer less (by omega))

theorem entityDefinition (covers : setting.Covers (8 * count + 4) fuel other) :
    setting.FindsStmt definitions count (Reader.entityDefinition fuel)
      (Reader.entityDefinition other) := by
  refine leading fun line fewer less => ?_
  refine (identifier _).kept.bind fun symbol => .given fun isWord => .read (.get fun found => ?_)
  refine .guard fun missing => ?_
  refine .deduce (fun reading holds => ⟨holds.1, fun worded =>
    (holds.1.recorded worded).unknown (holds.2 ▸ missing)⟩) fun new => ?_
  refine .demandChar ((nextSkipLines fun _ holds => ⟨holds.1, (isSolid_of_isChar holds.2).1⟩).bind
    fun _ => .starting (.noChar ?_) fun _ passed => passed.holds)
  refine .bind (fieldDefinitions _ symbol (by simp) (covers.later less (by omega)))
    fun fields => .given fun known => ?_
  refine (sign ⟨line, _, symbol, fields⟩ new).bind fun _ => .closing ?_
  exact .pure fun reading holds => ⟨holds, .cons (fun worded => ⟨rfl, isWord worded⟩) .nil, known⟩

theorem includePath (covers : setting.Covers (count + 1) fuel other) :
    setting.Reads definitions count (Reader.includePath fuel) (Reader.includePath other) fun path =>
      setting.worded → IsWord (path.getLastD "") := by
  induction fuel generalizing other count with
  | zero =>
    obtain ⟨free, rfl⟩ := covers.zero (Nat.succ_pos _)
    exact .cutOff free
  | succ fuel ih =>
    obtain ⟨other, rfl⟩ := covers.exists_succ (Nat.succ_pos _)
    refine .kept ((identifier _).bind fun element => .given fun isWord => .pass fun fewer less =>
      ?_)
    refine .ifChar (.closing ?_) (.pure fun _ holds => ⟨holds, isWord⟩)
    refine .bind (ih (covers.fewer less (by omega))) fun path => .given fun lastIsWord => ?_
    refine .pure fun _ holds => ⟨holds, fun worded => ?_⟩
    cases path with
    | nil => exact absurd rfl (lastIsWord worded).nonempty
    | cons next rest => simpa using lastIsWord worded

theorem includeTarget (covers : setting.Covers (count + 1) fuel other) :
    setting.Reads definitions count (Reader.includeTarget fuel) (Reader.includeTarget other)
      fun target => setting.worded → ∀ line, IsWord (Include.mk line target none).id := by
  refine .ifChar (.closing ?_) ?_
  · refine (identifier _).kept.bind fun name => .given fun isWord => ?_
    exact .pure fun _ holds => ⟨holds, fun worded _ => isWord worded⟩
  · refine (includePath covers).bind fun path => .given fun isWord => ?_
    exact .pure fun _ holds => ⟨holds, fun worded _ => isWord worded⟩

theorem inclusion (covers : setting.Covers (8 * count + 4) fuel other) :
    setting.FindsStmt definitions count (Reader.inclusion fuel) (Reader.inclusion other) := by
  refine leading fun line fewer less => ?_
  refine .bind (includeTarget (covers.later less (by omega))) fun target =>
    .given fun isWord => current.bind fun token => ?_
  split
  · rename_i word named
    refine .guard fun _ => .closingAt (by simp [Token.IsSolid, Token.isEnd, named]) ?_
    refine (identifier _).kept.bind fun localName => .given fun aliasIsWord => ?_
    exact found rfl rfl aliasIsWord trivial
  · refine .starting (found rfl rfl (fun worded => isWord worded line) trivial)
      fun _ holds => holds.1

theorem result (covers : setting.Covers (8 * count + 4) fuel other) :
    setting.FindsStmt definitions count (Reader.result fuel) (Reader.result other) := by
  refine leading fun line fewer less => ?_
  refine atTerminator.bind fun ended => current.bind fun token => (atChar _).bind fun closed => ?_
  have covered : setting.Covers (6 * fewer + 3) fuel other := covers.later less (by omega)
  refine .starting (.ite (fun _ => found rfl rfl (fun _ => trivial) trivial) fun _ => ?_)
    fun _ holds => holds.1.1.1
  exact ((setting.expressions fuel other).expr covered).kept.bind fun value =>
    .given fun known => found rfl rfl (fun _ => trivial) known

/-! ## Statements with blocks -/

theorem parameters (covers : setting.Covers (count + 1) fuel other) :
    setting.ReadsTo ')' definitions count (Reader.parameters fuel) (Reader.parameters other)
      fun parameters => ∀ parameter ∈ parameters, parameter.2.Consults setting.names := by
  induction fuel generalizing other count with
  | zero =>
    obtain ⟨free, rfl⟩ := covers.zero (Nat.succ_pos _)
    exact .cutOff free
  | succ fuel ih =>
    obtain ⟨other, rfl⟩ := covers.exists_succ (Nat.succ_pos _)
    refine .ifChar (.pure fun _ holds => ⟨holds, by simp⟩) ?_
    refine (identifier _).bind fun name => .given fun _ => .passTo fun fewer less => ?_
    refine (overChar _ _).bind fun _ => ?_
    refine .bind (typeName none (covers.fewer less (by omega))) fun type =>
      .given fun known => ?_
    refine .ifChar (.pure fun _ holds => ⟨holds, by simpa using known⟩) ?_
    refine (overChar _ _).bind fun _ => ?_
    refine .bind (ih (covers.fewer less (by omega))) fun rest => .given fun knownRest => ?_
    exact .pure fun _ holds => ⟨holds, List.forall_mem_cons.mpr ⟨known, knownRest⟩⟩

theorem prototype (covers : setting.Covers (count + 1) fuel other) :
    setting.Reads definitions count (Reader.prototype fuel) (Reader.prototype other)
      fun prototype => (setting.worded →
        prototype.name = Name.ofFunction setting.vantage.module.id prototype.symbol ∧
          IsWord prototype.symbol) ∧ prototype.Consults setting.names := by
  refine line.bind fun line => (identifier _).kept.bind fun symbol => .given fun isWord => ?_
  refine (overChar _ _).bind fun _ => (parameters covers).bind fun parameters => .given
    fun known => ?_
  refine .closing ((atChar _).bind fun opened => ?_)
  have typed : setting.Reads definitions count (some <$> Reader.typeName none fuel)
      (some <$> Reader.typeName none other)
      fun result => ∀ type ∈ result, type.Consults setting.names :=
    .map ((typeName none covers).weaken (fun _ holds => holds) fun _ _ reached =>
      ⟨reached.1, by simpa using reached.2⟩)
  refine .starting (.branch (.pure fun _ holds => ⟨holds, by simp⟩) typed fun result =>
    .given fun knownResult => ?_) fun _ holds => holds.1
  exact .read (.pure fun _ holds => ⟨holds, fun worded => ⟨rfl, isWord worded⟩, known, knownResult⟩)

def partsWithin (parts : Reader.ConditionalParts) : List Stmt :=
  parts.consequent.within ++ parts.alternative.within

/-- What was found next: a statement, or the end of the text. -/
def Next (setting : Setting) (definitions : List EntityDefinition) (count : Nat) :
    Option Stmt → Reading → Prop
  | none, reading => setting.Holds definitions count reading ∧ reading.current.isEnd = true
  | some stmt, reading =>
    setting.Passed (definitions ++ definitionsIn stmt.within) count reading ∧
      setting.Belong stmt.within ∧ stmt.Consults setting.names

/-- The readers of statements, with two fuels that are enough for the tokens they have before them,
read alike, and find what belongs to the module. -/
structure Statements (setting : Setting) (fuel other : Nat) : Prop where
  statement : ∀ {definitions count}, setting.Covers (8 * count + 5) fuel other →
    setting.Pairs (setting.Holds definitions count) (Reader.statement fuel) (Reader.statement other)
      (setting.Next definitions count)
  block : ∀ {definitions count}, setting.Covers (8 * count + 7) fuel other →
    setting.Pairs (setting.Holds definitions count) (Reader.block fuel) (Reader.block other)
      fun body reading => setting.Passed (definitions ++ definitionsIn body.within) count reading ∧
        setting.Belong body.within ∧ body.Consults setting.names
  blockStatements : ∀ {definitions count}, setting.Covers (8 * count + 6) fuel other →
    setting.Pairs (setting.Holds definitions count) (Reader.blockStatements fuel)
      (Reader.blockStatements other) fun found reading =>
        setting.At '}' (definitions ++ definitionsIn (withinAll found)) count reading ∧
        setting.Belong (withinAll found) ∧ stmtsConsult setting.names found
  conditional : ∀ {definitions count}, setting.Covers (8 * count + 4) fuel other →
    setting.Finds definitions count
      (Reader.conditional fuel) (Reader.conditional other) partsWithin fun parts =>
        parts.condition.Consults setting.names ∧ parts.consequent.Consults setting.names ∧
          parts.alternative.Consults setting.names
  loop : ∀ {definitions count}, setting.Covers (8 * count + 4) fuel other →
    setting.FindsStmt definitions count (Reader.loop fuel) (Reader.loop other)
  function : ∀ {definitions count}, setting.Covers (8 * count + 4) fuel other →
    setting.FindsStmt definitions count (Reader.function fuel) (Reader.function other)

namespace Statements

theorem finish (terminated : Bool) (stmt : Stmt) :
    setting.Pairs (setting.Holds definitions count) (Reader.statement.finish terminated stmt)
      (Reader.statement.finish terminated stmt) fun found reading =>
        setting.Holds definitions count reading ∧ found = some stmt := by
  refine current.bind fun token => (atChar _).bind fun closed => ?_
  refine .starting (.ite (fun _ => .pure fun _ holds => ⟨holds, rfl⟩) fun _ => ?_)
    fun _ holds => holds.1.1
  refine atTerminator.bind fun ended => .ite (fun isEnded => ?_) fun _ => .fail
  refine .kept ((nextSkipLines ?_).bind fun _ => .pure fun _ passed => ⟨passed, rfl⟩)
  exact fun reading holds => ⟨holds.1, isEnd_of_endsStatement (holds.2.trans isEnded)⟩

theorem finished {stmt : Stmt} (terminated : Bool) (belongs : setting.Belong stmt.within)
    (known : stmt.Consults setting.names) :
    setting.Pairs (setting.Passed (definitions ++ definitionsIn stmt.within) count)
      (Reader.statement.finish terminated stmt) (Reader.statement.finish terminated stmt)
      (setting.Next definitions count) := by
  refine .weaken (.pass fun fewer _ => finish terminated stmt) (fun _ passed => passed) ?_
  rintro _ reading ⟨passed, rfl⟩
  exact ⟨passed, belongs, known⟩

/-- A reader that starts at a certain token, and leaves a message. -/
theorem tracedAt {α : Type} {one another : Reader α} {parts : α → List Stmt} {holds : α → Prop}
    (solid : token.IsSolid) (finds : setting.Finds definitions count one another parts holds) :
    setting.Pairs (fun reading => setting.Holds definitions count reading ∧ reading.current = token)
      (Reader.traced message one) (Reader.traced message another) fun value reading =>
        setting.Passed (definitions ++ definitionsIn (parts value)) count reading ∧
          setting.Belong (parts value) ∧ holds value := by
  refine traced (finds.starting fun reading here => ⟨here.1, ?_⟩)
    fun _ _ _ reached => ⟨reached.1.trace _, reached.2⟩
  rw [here.2]
  exact solid

/-- One kind of statement, with its end. -/
theorem kind {one another : Reader Stmt} (solid : token.IsSolid)
    (finds : setting.FindsStmt definitions count one another) :
    setting.Pairs (fun reading => setting.Holds definitions count reading ∧ reading.current = token)
      (do Reader.statement.finish false (← Reader.traced message one))
      (do Reader.statement.finish false (← Reader.traced message another))
      (setting.Next definitions count) :=
  (tracedAt solid finds).bind fun _ => .given fun shows => finished false shows.1 shows.2

theorem statement_succ (smaller : setting.Statements fuel other)
    (covers : setting.Covers (8 * count + 5) (fuel + 1) (other + 1)) :
    setting.Pairs (setting.Holds definitions count) (Reader.statement (fuel + 1))
      (Reader.statement (other + 1)) (setting.Next definitions count) := by
  rw [Reader.statement, Reader.statement]
  have covered : setting.Covers (8 * count + 4) fuel other := covers.less (by omega)
  refine skipLines.bind fun _ => current.bind fun token => ?_
  split
  · rename_i named
    exact .pure fun reading holds => ⟨holds.1, by simp [holds.2, Token.isEnd, named]⟩
  · rename_i named
    exact kind (by simp [Token.IsSolid, Token.isEnd, named]) (smaller.function covered)
  · rename_i named
    exact kind (by simp [Token.IsSolid, Token.isEnd, named]) (entityDefinition covered)
  · rename_i named
    exact kind (by simp [Token.IsSolid, Token.isEnd, named]) (declaration covered)
  · rename_i named
    refine (tracedAt (by simp [Token.IsSolid, Token.isEnd, named])
      (smaller.conditional covered)).bind fun parts => .given fun shows => ?_
    have belongs : setting.Belong (Stmt.conditional parts.line parts.condition parts.consequent
        parts.alternative).within :=
      .cons (fun _ => trivial) shows.1
    exact .starting (finished parts.terminated belongs shows.2) fun _ passed => passed
  · rename_i named
    exact kind (by simp [Token.IsSolid, Token.isEnd, named]) (smaller.loop covered)
  · rename_i named
    exact kind (by simp [Token.IsSolid, Token.isEnd, named]) (result covered)
  · rename_i named
    exact kind (by simp [Token.IsSolid, Token.isEnd, named]) (inclusion covered)
  · have enough : setting.Covers (6 * count + 3) fuel other := covered.mono (by omega)
    refine .bind (traced (((setting.expressions fuel other).expr enough).starting
      fun _ holds => holds.1)
      fun _ _ _ reached => ⟨reached.1.trace _, reached.2⟩) fun value => .given fun known => ?_
    refine .starting (finished false (.cons (fun _ => trivial) .nil) known) fun _ passed => ?_
    simpa [Stmt.within, definitionsIn] using passed

/-- At the end of the text a block is not closed. -/
theorem blockStatements_atEnd {after : List Stmt → Reading → Prop}
    (covers : setting.Covers 1 fuel other) :
    setting.Pairs (fun reading => setting.Holds definitions count reading ∧
        reading.current.isEnd = true) (Reader.blockStatements fuel) (Reader.blockStatements other)
      after := by
  cases fuel with
  | zero =>
    obtain ⟨free, rfl⟩ := covers.zero (Nat.succ_pos _)
    rw [Reader.blockStatements]
    exact .cutOff free
  | succ fuel =>
    obtain ⟨other, rfl⟩ := covers.exists_succ (Nat.succ_pos _)
    rw [Reader.blockStatements, Reader.blockStatements]
    refine .ifChar ?_ (current.bind fun token => ?_)
    · refine .deduce (fun _ holds => ⟨holds.1, ?_⟩) False.elim
      simp [(isSolid_of_isChar holds.2).1] at holds
    · refine .deduce (fun _ holds => ⟨holds, holds.2 ▸ holds.1.2⟩) fun isEnd => ?_
      exact .guard fun notEnd => absurd isEnd notEnd

theorem blockStatements_succ (smaller : setting.Statements fuel other)
    (covers : setting.Covers (8 * count + 6) (fuel + 1) (other + 1)) :
    setting.Pairs (setting.Holds definitions count) (Reader.blockStatements (fuel + 1))
      (Reader.blockStatements (other + 1)) fun found reading =>
        setting.At '}' (definitions ++ definitionsIn (withinAll found)) count reading ∧
        setting.Belong (withinAll found) ∧ stmtsConsult setting.names found := by
  rw [Reader.blockStatements, Reader.blockStatements]
  refine .ifChar (.pure fun _ holds => ⟨?_, by simp [Belong, withinAll], trivial⟩) ?_
  · simpa [withinAll] using holds
  refine current.bind fun token => .guard fun _ => .starting (.bind (smaller.statement
    (covers.less (by omega))) fun found => ?_) fun _ holds => holds.1
  cases found with
  | none => exact blockStatements_atEnd (covers.less (by omega))
  | some stmt =>
    refine .given fun shows => .passTo fun fewer less => ?_
    refine .bind (smaller.blockStatements (covers.fewer less (by omega))) fun rest =>
      .given fun showsRest => ?_
    refine .pure fun _ holds => ⟨?_, shows.1.append showsRest.1, shows.2, showsRest.2⟩
    simpa [withinAll] using holds

theorem conditional_succ (smaller : setting.Statements fuel other)
    (covers : setting.Covers (8 * count + 4) (fuel + 1) (other + 1)) :
    setting.Finds definitions count
      (Reader.conditional (fuel + 1)) (Reader.conditional (other + 1)) partsWithin fun parts =>
        parts.condition.Consults setting.names ∧ parts.consequent.Consults setting.names ∧
          parts.alternative.Consults setting.names := by
  rw [Reader.conditional, Reader.conditional]
  refine leading fun line fewer less => ?_
  have enough : setting.Covers (6 * fewer + 3) fuel other := covers.fewer less (by omega)
  have covered : setting.Covers (8 * fewer + 7) fuel other := covers.fewer less (by omega)
  refine ((setting.expressions fuel other).expr enough).kept.bind fun condition =>
    .given fun known => (smaller.block covered).kept.bind fun consequent => .given fun shows =>
      overTerminator fun terminated => current.bind fun token => .ite (fun _ => ?_) fun named => ?_
  · refine .pure fun _ holds => ⟨?_, ?_, known, shows.2, trivial⟩
    · simpa [partsWithin, Alternative.within] using holds.1
    · simpa [partsWithin, Alternative.within] using shows.1
  · have isOtherwise : token.lexeme = .keyword .otherwise := Decidable.not_not.mp named
    refine .closingAt (by simp [Token.IsSolid, Token.isEnd, isOtherwise]) ?_
    refine current.bind fun token => .ite (fun isCondition => ?_) fun _ => ?_
    · refine .bind (.kept ((smaller.conditional (covered.mono (by omega))).starting
        fun reading holds => ⟨holds.1, ?_⟩)) fun nested =>
          .given fun showsNested => ?_
      · simp [Token.IsSolid, Token.isEnd, holds.2, isCondition]
      · refine .pure fun _ holds =>
          ⟨?_, shows.1.append showsNested.1, known, shows.2, showsNested.2⟩
        simpa [partsWithin, Alternative.within] using holds
    · refine .starting ((smaller.block covered).kept.bind fun otherwise => .given fun showsLater =>
        ?_)
        fun _ holds => holds.1
      refine .pure fun _ holds => ⟨?_, shows.1.append showsLater.1, known, shows.2, showsLater.2⟩
      simpa [partsWithin, Alternative.within] using holds

/-- What the readers of statements do with one more of both fuels. -/
theorem succ (smaller : setting.Statements fuel other) :
    setting.Statements (fuel + 1) (other + 1) where
  statement := smaller.statement_succ
  block covers := by
    rw [Reader.block, Reader.block]
    refine line.bind fun line => (passChar _ _).bind fun _ => .pass fun fewer less => ?_
    refine skipLines.bind fun _ => .bind (smaller.blockStatements (covers.fewer less (by omega)))
      fun statements => .given fun shows => .closing <| ?_
    exact .pure fun _ holds => ⟨holds, shows⟩
  blockStatements := smaller.blockStatements_succ
  conditional := smaller.conditional_succ
  loop covers := by
    rw [Reader.loop, Reader.loop]
    refine leading fun line fewer less => ?_
    have enough : setting.Covers (6 * fewer + 3) fuel other := covers.fewer less (by omega)
    refine ((setting.expressions fuel other).expr enough).kept.bind fun condition =>
      .given fun known => .demandChar ?_
    refine .starting (.bind (.kept (smaller.block (covers.fewer less (by omega)))) fun body =>
      .given fun shows => ?_) fun _ holds => holds.1
    exact .pure fun _ holds => ⟨holds, .cons (fun _ => trivial) shows.1, known, shows.2⟩
  function covers := by
    rw [Reader.function, Reader.function]
    refine leading fun line fewer less => ?_
    refine .bind (prototype (covers.fewer less (by omega))) fun head => .given fun named =>
      .demandChar ?_
    refine .starting (.bind (.kept (smaller.block (covers.fewer less (by omega)))) fun body =>
      .given fun shows => ?_) fun _ holds => holds.1
    exact .pure fun _ holds => ⟨holds, .cons named.1 shows.1, named.2, shows.2⟩

end Statements

theorem statements (setting : Setting) (fuel other : Nat) : setting.Statements fuel other := by
  induction fuel generalizing other with
  | zero =>
    constructor <;> intros <;> rename_i covers <;>
      obtain ⟨free, rfl⟩ := covers.zero (by omega) <;>
      simp only [Reader.statement, Reader.block, Reader.blockStatements, Reader.conditional,
        Reader.loop, Reader.function] <;>
      exact .cutOff free
  | succ fuel ih =>
    cases other with
    | zero =>
      constructor <;> intros <;> rename_i covers <;>
        obtain ⟨_, impossible⟩ := covers.exists_succ (by omega) <;> cases impossible
    | succ other => exact (ih other).succ

/-- The next statement with its own fuel. -/
theorem next (free : ¬setting.bounded) {reading : Reading} (holds : setting.Holds [] 0 reading) :
    Reader.statement reading.fuel setting.vantage.second (setting.layout.view reading) =
        setting.layout.outcome (reading.statement setting.vantage.first) ∧
      setting.Reached (setting.Next [] 0) (reading.statement setting.vantage.first) :=
  (setting.statements reading.fuel reading.fuel).statement (.inl ⟨free, rfl⟩) reading holds

end Setting

namespace Reading

variable {surroundings : Surroundings} {reading after : Reading}

/-- The next statement of a file is read alike with both registries, and it mentions only names
that they answer alike to. -/
theorem statement_alike (vantage : Vantage) (reading : Reading) :
    reading.statement vantage.second = reading.statement vantage.first ∧
      ∀ stmt after, reading.statement vantage.first = .ok (some stmt) after →
        stmt.Consults vantage.names := by
  have holds : Setting.Holds { vantage } [] 0 reading := ⟨False.elim, False.elim⟩
  obtain ⟨same, reached⟩ := Setting.next id holds
  refine ⟨same.trans (Layout.outcome_plain _), fun stmt after found => ?_⟩
  rw [found] at reached
  exact reached.2.2

/-- What was read belongs to its module, and its entities are new. -/
theorem statement_finds {found : Option Stmt} (worded : reading.Worded)
    (read : reading.statement surroundings = .ok found after) :
    Recorded reading.signatures (definitionsIn (found.elim [] Stmt.within)) after ∧
      ∀ part ∈ found.elim [] Stmt.within, part.BelongsTo surroundings.module.id := by
  have holds : (Setting.recording surroundings reading.signatures).Holds [] 0 reading :=
    .start worded
  have reached := (Setting.next id holds).2
  change Setting.Reached _ _ (reading.statement surroundings) at reached
  rw [read] at reached
  cases found with
  | none => exact ⟨reached.1.recorded trivial, by simp⟩
  | some stmt => exact ⟨reached.1.holds.recorded trivial, reached.2.1 trivial⟩

/-- A statement that was read belongs to its module, and its entities are new. -/
theorem statement_belongs {written : Stmt} (worded : reading.Worded)
    (found : reading.statement surroundings = .ok (some written) after) :
    Recorded reading.signatures (definitionsIn written.within) after ∧
      ∀ part ∈ written.within, part.BelongsTo surroundings.module.id :=
  statement_finds worded found

end Reading

end Kronk.Source
