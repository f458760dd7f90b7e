/-!
# Where computations lead

A computation in a state that survives failures leads from one state to another whether it succeeds
or fails.  `Leads` says what holds there; the rules below follow the shape of the computation.
-/

namespace Kronk

variable {ε σ α β : Type}

variable {first : EStateM ε σ α} {next : α → EStateM ε σ β}

/-- The state in which a computation ends, whether it succeeds or fails. -/
def finalState : EStateM.Result ε σ α → σ
  | .ok _ state => state
  | .error _ state => state

/-- The computation leads from every state with `before` to a value and a state with `after`, or
fails in a state with `failed`. -/
def Leads (before : σ → Prop) (computation : EStateM ε σ α) (after : α → σ → Prop)
    (failed : σ → Prop) : Prop :=
  ∀ state, before state →
    match computation state with
    | .ok value final => after value final
    | .error _ final => failed final

/-- The computation keeps to an invariant; where it fails, `broken` is left of it. -/
def Preserves (invariant broken : σ → Prop) (computation : EStateM ε σ α) : Prop :=
  Leads invariant computation (fun _ => invariant) broken

/-- Whether an outcome is a success in a state that passes a test. -/
def succeedsIn (outcome : EStateM.Result ε σ α) (test : σ → Bool) : Bool :=
  match outcome with
  | .ok _ state => test state
  | .error _ _ => false

theorem exists_of_succeedsIn {outcome : EStateM.Result ε σ α} {test : σ → Bool}
    (passes : succeedsIn outcome test = true) :
    ∃ value final, outcome = .ok value final ∧ test final = true := by
  cases outcome with
  | ok value final => exact ⟨value, final, rfl, passes⟩
  | error failure final => cases passes

theorem get_apply (state : σ) : (get : EStateM ε σ σ) state = .ok state state := rfl

theorem modify_apply (change : σ → σ) (state : σ) :
    (modify change : EStateM ε σ PUnit) state = .ok ⟨⟩ (change state) := rfl

/-- A computation that succeeds does so step by step. -/
theorem bind_eq_ok {state final : σ} {value : β}
    (outcome : (first >>= next) state = .ok value final) :
    ∃ middle between, first state = .ok middle between ∧ next middle between = .ok value final := by
  change EStateM.bind first next state = _ at outcome
  unfold EStateM.bind at outcome
  cases start : first state with
  | ok middle between =>
    rw [start] at outcome
    exact ⟨middle, between, rfl, outcome⟩
  | error failure between =>
    rw [start] at outcome
    cases outcome

namespace Leads

variable {before : σ → Prop} {after : β → σ → Prop} {failed : σ → Prop}

theorem bind {middle : α → σ → Prop} (starts : Leads before first middle failed)
    (continues : ∀ value, Leads (middle value) (next value) after failed) :
    Leads before (first >>= next) after failed := by
  intro state holds
  have start := starts state holds
  change match EStateM.bind first next state with
    | .ok value final => after value final
    | .error _ final => failed final
  unfold EStateM.bind
  cases outcome : first state with
  | ok value final =>
    rw [outcome] at start
    exact continues value final start
  | error failure final =>
    rw [outcome] at start
    exact start

end Leads

namespace Preserves

variable {invariant broken : σ → Prop}

theorem pure (value : α) : Preserves invariant broken (pure value : EStateM ε σ α) :=
  fun _ holds => holds

theorem throw (breaks : ∀ state, invariant state → broken state) (failure : ε) :
    Preserves invariant broken (throw failure : EStateM ε σ α) :=
  breaks

theorem get : Preserves invariant broken (get : EStateM ε σ σ) :=
  fun _ holds => holds

theorem modify {change : σ → σ} (holds : ∀ state, invariant state → invariant (change state)) :
    Preserves invariant broken (modify change : EStateM ε σ Unit) :=
  holds

theorem bind (starts : Preserves invariant broken first)
    (continues : ∀ value, Preserves invariant broken (next value)) :
    Preserves invariant broken (first >>= next) :=
  Leads.bind starts continues

variable {computation : EStateM ε σ α} {state : σ}

theorem of_ok (preserves : Preserves invariant broken computation) {final : σ} {value : α}
    (outcome : computation state = .ok value final) (holds : invariant state) :
    invariant final := by
  have reached := preserves state holds
  rwa [outcome] at reached

theorem of_error (preserves : Preserves invariant broken computation) {final : σ} {failure : ε}
    (outcome : computation state = .error failure final) (holds : invariant state) :
    broken final := by
  have reached := preserves state holds
  rwa [outcome] at reached

/-- What a computation preserves unbroken holds where it ends. -/
theorem final (preserves : Preserves invariant invariant computation) (holds : invariant state) :
    invariant (finalState (computation state)) := by
  have outcome := preserves state holds
  unfold finalState
  split at outcome
  · exact outcome
  · exact outcome

end Preserves

/-- Two computations keep to an invariant and do the same where it holds. -/
structure Agrees (invariant broken : σ → Prop) (first second : EStateM ε σ α) : Prop where
  preserves : Preserves invariant broken first
  same : ∀ state, invariant state → first state = second state

namespace Agrees

variable {invariant broken : σ → Prop}

theorem refl {computation : EStateM ε σ α} (preserves : Preserves invariant broken computation) :
    Agrees invariant broken computation computation :=
  ⟨preserves, fun _ _ => rfl⟩

theorem bind {second : EStateM ε σ α} {following : α → EStateM ε σ β}
    (starts : Agrees invariant broken first second)
    (continues : ∀ value, Agrees invariant broken (next value) (following value)) :
    Agrees invariant broken (first >>= next) (second >>= following) where
  preserves := .bind starts.preserves fun value => (continues value).preserves
  same := by
    intro state holds
    have kept := starts.preserves state holds
    change EStateM.bind first next state = EStateM.bind second following state
    unfold EStateM.bind
    rw [← starts.same state holds]
    cases outcome : first state with
    | ok value final =>
      rw [outcome] at kept
      exact (continues value).same final kept
    | error failure final => rfl

end Agrees

end Kronk
