import Mathlib.Logic.Function.Basic

/-! Linearizability. A history of calls and answers is linearizable when every call can be
given a moment between its invocation and its answer at which it takes effect, whole, on an
object that serves one call at a time. -/
namespace Linearization

/-- What an object does with a call: the state before, the call, its answer, the state after. -/
structure Object (Call Answer State : Type) where
  initial : State
  accepts : State → Call → Answer → State → Prop

inductive Event (Call Answer : Type) where
  | invoke (tid : Nat) (call : Call)
  | respond (tid : Nat) (call : Call) (answer : Answer)
  deriving DecidableEq, Repr

/-- Where a thread is with its call. -/
inductive Phase (Call Answer : Type) where
  | idle
  | pending (call : Call)
  | effective (call : Call) (answer : Answer)
  deriving DecidableEq, Repr

variable {Call Answer State Call' Answer' State' : Type}

def Event.map (f : Call → Call') (g : Answer → Answer') : Event Call Answer → Event Call' Answer'
  | .invoke tid call => .invoke tid (f call)
  | .respond tid call answer => .respond tid (f call) (g answer)

def Phase.map (f : Call → Call') (g : Answer → Answer') : Phase Call Answer → Phase Call' Answer'
  | .idle => .idle
  | .pending call => .pending (f call)
  | .effective call answer => .effective (f call) (g answer)

@[simp] theorem Event.map_id (event : Event Call Answer) : event.map id id = event := by
  cases event <;> rfl

@[simp] theorem Phase.map_id (phase : Phase Call Answer) : phase.map id id = phase := by
  cases phase <;> rfl

/-- A history, the newest event first, with the phases of the threads and the state of the
object after it. The moment of effect is not an event. -/
inductive Linearizes (object : Object Call Answer State) :
    List (Event Call Answer) → (Nat → Phase Call Answer) → State → Prop where
  | start : Linearizes object [] (fun _ => .idle) object.initial
  | invoke (past : Linearizes object history phases state) (idle : phases tid = .idle)
      (call : Call) : Linearizes object (.invoke tid call :: history)
        (Function.update phases tid (.pending call)) state
  | effect (past : Linearizes object history phases state) (pending : phases tid = .pending call)
      (accepted : object.accepts state call answer after) : Linearizes object history
        (Function.update phases tid (.effective call answer)) after
  | respond (past : Linearizes object history phases state)
      (effective : phases tid = .effective call answer) :
      Linearizes object (.respond tid call answer :: history)
        (Function.update phases tid .idle) state

/-- A call that takes effect at its answer. -/
theorem Linearizes.serve {object : Object Call Answer State}
    (past : Linearizes object history phases state) (pending : phases tid = .pending call)
    (accepted : object.accepts state call answer after) :
    Linearizes object (.respond tid call answer :: history) (Function.update phases tid .idle)
      after := by
  have effective := (past.effect pending accepted).respond (Function.update_self tid _ phases)
  rwa [Function.update_idem] at effective

/-- An object whose answers another one can give, state for state, has no other histories. -/
theorem Linearizes.refines {object : Object Call Answer State}
    {target : Object Call' Answer' State'} (f : Call → Call') (g : Answer → Answer')
    (related : State → State' → Prop) (initial : related object.initial target.initial)
    (simulates : ∀ s s' call answer t, related s s' → object.accepts s call answer t →
      ∃ t', target.accepts s' (f call) (g answer) t' ∧ related t t')
    (linearizes : Linearizes object history phases state) :
    ∃ state', Linearizes target (history.map (Event.map f g)) (fun tid => (phases tid).map f g)
      state' ∧ related state state' := by
  have moved (phases : Nat → Phase Call Answer) (tid : Nat) (phase : Phase Call Answer) :
      (fun other => (Function.update phases tid phase other).map f g) =
        Function.update (fun other => (phases other).map f g) tid (phase.map f g) := by
    funext other
    by_cases same : other = tid
    · subst other
      simp
    · simp [same]
  induction linearizes with
  | start => exact ⟨_,.start,initial⟩
  | invoke _ idle call ih =>
    obtain ⟨state',past,relates⟩ := ih
    refine ⟨state',?_,relates⟩
    rw [moved]
    exact past.invoke (by rw [idle]; rfl) (f call)
  | effect _ pending accepted ih =>
    obtain ⟨state',past,relates⟩ := ih
    obtain ⟨after',accepted',relates'⟩ := simulates _ _ _ _ _ relates accepted
    refine ⟨after',?_,relates'⟩
    rw [moved]
    exact past.effect (by rw [pending]; rfl) accepted'
  | respond _ effective ih =>
    obtain ⟨state',past,relates⟩ := ih
    refine ⟨state',?_,relates⟩
    rw [moved]
    exact past.respond (by rw [effective]; rfl)

theorem Linearizes.simulates {object : Object Call Answer State} {target : Object Call Answer State'}
    (related : State → State' → Prop) (initial : related object.initial target.initial)
    (step : ∀ s s' call answer t, related s s' → object.accepts s call answer t →
      ∃ t', target.accepts s' call answer t' ∧ related t t')
    (linearizes : Linearizes object history phases state) :
    ∃ state', Linearizes target history phases state' ∧ related state state' := by
  obtain ⟨state',past,relates⟩ := linearizes.refines id id related initial step
  refine ⟨state',?_,relates⟩
  simpa [funext Event.map_id] using past

end Linearization
