import Mathlib.Logic.Relation
import Mathlib.Order.Basic

/-! Runs of a transition relation: invariants of runs whose steps meet a guard,
and goals that every maximal run comes to, whatever choices it makes. -/
namespace Transition

variable {S : Type*} {step : S → S → Prop}

/-- What every step keeps holds at the end of a run that starts with it. -/
theorem run_invariant (invariant : S → Prop)
    (preserved : ∀ s t, invariant s → step s t → invariant t)
    (initial : invariant s) (run : Relation.ReflTransGen step s t) : invariant t := by
  induction run with
  | refl => exact initial
  | tail _ last ih => exact preserved _ _ ih last

/-- A relation on states that composes and holds of every step from a kept
invariant holds of every run. -/
theorem run_related (invariant : S → Prop) (related : S → S → Prop)
    (preserved : ∀ s t, invariant s → step s t → invariant t)
    (refl : ∀ s, related s s) (trans : ∀ s t u, related s t → related t u → related s u)
    (single : ∀ s t, invariant s → step s t → related s t)
    (initial : invariant s) (run : Relation.ReflTransGen step s t) : related s t := by
  induction run with
  | refl => exact refl s
  | tail front last ih =>
    exact trans _ _ _ ih (single _ _ (run_invariant invariant preserved initial front) last)

/-- Every maximal run from the state comes to the goal after finitely many steps;
a state that cannot move counts only when it is in the goal. -/
inductive Inevitable (step : S → S → Prop) (goal : S → Prop) : S → Prop where
  | reached (here : goal s) : Inevitable step goal s
  | later (live : ∃ t, step s t) (all : ∀ t, step s t → Inevitable step goal t) :
      Inevitable step goal s

namespace Inevitable

theorem bind {middle goal : S → Prop} (first : Inevitable step middle s)
    (second : ∀ t, middle t → Inevitable step goal t) : Inevitable step goal s := by
  induction first with
  | reached here => exact second _ here
  | later live _ ih => exact .later live ih

theorem mono {weak strong : S → Prop} (inevitable : Inevitable step strong s)
    (implies : ∀ t, strong t → weak t) : Inevitable step weak s :=
  inevitable.bind fun t here => .reached (implies t here)

theorem next {goal : S → Prop} (move : step s t) (only : ∀ u, step s u → u = t)
    (rest : Inevitable step goal t) : Inevitable step goal s :=
  .later ⟨t,move⟩ fun u moved => only u moved ▸ rest

/-- A loop whose rounds come to the goal or back to the invariant with a smaller
measure comes to the goal. -/
theorem loop {goal : S → Prop} (invariant : S → Prop) (measure : S → Nat)
    (round : ∀ s, invariant s →
      Inevitable step (fun t => goal t ∨ invariant t ∧ measure t < measure s) s)
    (initial : invariant s) : Inevitable step goal s := by
  induction size : measure s using Nat.strongRecOn generalizing s with
  | ind n ih =>
    refine (round s initial).bind fun t outcome => ?_
    rcases outcome with done | ⟨kept,less⟩
    · exact .reached done
    · exact ih _ (size ▸ less) kept rfl

theorem keep {goal : S → Prop} (invariant : S → Prop)
    (preserved : ∀ s t, invariant s → step s t → invariant t) (initial : invariant s)
    (inevitable : Inevitable step goal s) :
    Inevitable step (fun t => goal t ∧ invariant t) s := by
  induction inevitable with
  | reached here => exact .reached ⟨here,initial⟩
  | later live _ ih => exact .later live fun t moved => ih t moved (preserved _ t initial moved)

theorem exists_run {goal : S → Prop} (inevitable : Inevitable step goal s) :
    ∃ t, Relation.ReflTransGen step s t ∧ goal t := by
  induction inevitable with
  | reached here => exact ⟨_,.refl,here⟩
  | later live _ ih =>
    obtain ⟨t,moved⟩ := live
    obtain ⟨u,run,here⟩ := ih t moved
    exact ⟨u,.head moved run,here⟩

/-- A run whose states before the last are outside the goal has not passed it. -/
theorem along {goal : S → Prop} (inevitable : Inevitable step goal s)
    (run : Relation.ReflTransGen (fun a b => ¬goal a ∧ step a b) s t) :
    Inevitable step goal t := by
  induction run with
  | refl => exact inevitable
  | tail _ last ih =>
    cases ih with
    | reached here => exact absurd here last.1
    | later _ all => exact all _ last.2

/-- A set that avoids the goal and can go on inside itself where a step is possible is a
trap. -/
theorem not_of_trap {goal : S → Prop} (trap : S → Prop) (avoids : ∀ s, trap s → ¬goal s)
    (continues : ∀ s, trap s → (∃ t, step s t) → ∃ t, step s t ∧ trap t) (start : trap s) :
    ¬Inevitable step goal s := by
  intro inevitable
  induction inevitable with
  | reached here => exact avoids _ start here
  | later live _ ih =>
    obtain ⟨t,moved,kept⟩ := continues _ start live
    exact ih t moved kept

/-- A call inside a larger system: while the call can go on, every step of the
system is one of its own. -/
theorem embed {T : Type*} {step' : T → T → Prop} {goal : S → Prop} {goal' : T → Prop} (wrap : S → T)
    (live : ∀ s t, step s t → ∃ u, step' (wrap s) u)
    (follows : ∀ s t u, step s t → step' (wrap s) u → ∃ t', step s t' ∧ u = wrap t')
    (inner : Inevitable step goal s) (after : ∀ t, goal t → Inevitable step' goal' (wrap t)) :
    Inevitable step' goal' (wrap s) := by
  induction inner with
  | reached here => exact after _ here
  | @later s possible _ ih =>
    obtain ⟨t,moved⟩ := possible
    refine .later (live s t moved) fun u stepped => ?_
    obtain ⟨t',moved',rfl⟩ := follows s t u moved stepped
    exact ih t' moved'

/-- States from which some run comes back to such a state, unless it cannot move, never
have to reach a goal that no run leaves. -/
theorem not_of_cycle {goal : S → Prop} (home : S → Prop) (final : ∀ s t, step s t → ¬goal s)
    (avoids : ∀ s, home s → ¬goal s)
    (round : ∀ s, home s → (∃ t, step s t) → ∃ t, Relation.TransGen step s t ∧ home t)
    (start : home s) : ¬Inevitable step goal s := by
  refine not_of_trap (fun a => ∃ b, Relation.ReflTransGen step a b ∧ home b) ?_ ?_
    ⟨s,.refl,start⟩
  · rintro a ⟨b,run,back⟩
    rcases run.cases_head with rfl | ⟨c,moved,-⟩
    · exact avoids _ back
    · exact final _ _ moved
  · rintro a ⟨b,run,back⟩ live
    rcases run.cases_head with rfl | ⟨c,moved,rest⟩
    · obtain ⟨d,again,back'⟩ := round _ back live
      obtain ⟨c,moved,rest⟩ := Relation.TransGen.head'_iff.mp again
      exact ⟨c,moved,d,rest,back'⟩
    · exact ⟨c,moved,b,rest,back⟩

end Inevitable

end Transition
