import Mathlib.Logic.Function.Iterate

/-! Chains: a function followed from a start to the first place where it may stop. Up to
there no place comes twice, whatever the function is. -/
namespace Chain

variable {α : Type*} {next next' : α → α} {stop stop' : α → Prop} {a : α} {d e : Nat}

/-- The chain from `a` first stops after `d` hops. -/
def Reaches (next : α → α) (stop : α → Prop) (a : α) (d : Nat) : Prop :=
  stop (next^[d] a) ∧ ∀ j < d, ¬stop (next^[j] a)

theorem Reaches.unique (first : Reaches next stop a d) (second : Reaches next stop a e) : d = e := by
  rcases Nat.lt_trichotomy d e with less | same | less
  · exact absurd first.1 (second.2 d less)
  · exact same
  · exact absurd second.1 (first.2 e less)

theorem reaches_zero : Reaches next stop a 0 ↔ stop a :=
  ⟨And.left,fun here => ⟨here,fun j early => absurd early (Nat.not_lt_zero j)⟩⟩

/-- A place that came twice would bring the stop forward. -/
theorem Reaches.distinct (reaches : Reaches next stop a d) (before : j < k) (inside : k ≤ d) :
    next^[j] a ≠ next^[k] a := by
  intro same
  refine reaches.2 (d - k + j) (by omega) ?_
  rw [Function.iterate_add_apply,same,← Function.iterate_add_apply,Nat.sub_add_cancel inside]
  exact reaches.1

theorem iterate_agree (agree : ∀ j < d, next' (next^[j] a) = next (next^[j] a)) :
    ∀ j ≤ d, next'^[j] a = next^[j] a := by
  intro j
  induction j with
  | zero => exact fun _ => rfl
  | succ j ih =>
    intro inside
    rw [Function.iterate_succ_apply',Function.iterate_succ_apply',ih (by omega),
      agree j (by omega)]

theorem Reaches.change (agree : ∀ j < d, next' (next^[j] a) = next (next^[j] a))
    (free : stop' (next^[d] a)) (full : ∀ j < d, ¬stop' (next^[j] a)) :
    Reaches next' stop' a d := by
  have hops := iterate_agree agree
  refine ⟨?_,fun j early => ?_⟩
  · rwa [hops d (Nat.le_refl d)]
  · rw [hops j (Nat.le_of_lt early)]
    exact full j early

end Chain
