import Mathlib.Data.Multiset.Filter
import Mathlib.Data.Finset.Erase
import Mathlib.Algebra.Order.Group.Multiset
import Mathlib.Tactic.Abel

/-! Bags. What finitely many slots hold, as a multiset; and a bag as a data type of
its own, with the answers of its operations and the bag a history of answers leaves. -/
namespace Bag

section

variable {ι α : Type*} {slots : Finset ι} {f g : ι → Option α}

/-- The values in some slots, each slot holding at most one. -/
def contents (slots : Finset ι) (held : ι → Option α) : Multiset α := slots.val.filterMap held

theorem mem_contents : a ∈ contents slots f ↔ ∃ i ∈ slots, f i = some a :=
  Multiset.mem_filterMap f slots.val

theorem contents_congr (same : ∀ i ∈ slots, g i = f i) : contents slots g = contents slots f := by
  have agree (i : ι) (member : i ∈ slots.val) : g i = f i := same i member
  unfold contents
  generalize slots.val = members at agree
  induction members using Multiset.induction with
  | empty => rfl
  | cons i rest ih =>
    have first := agree i (Multiset.mem_cons_self i rest)
    have others := ih fun j member => agree j (Multiset.mem_cons_of_mem member)
    cases held : f i with
    | none => rw [Multiset.filterMap_cons_none i rest held,
        Multiset.filterMap_cons_none i rest (first.trans held),others]
    | some a => rw [Multiset.filterMap_cons_some g i rest (first.trans held),
        Multiset.filterMap_cons_some f i rest held,others]

variable [DecidableEq ι]

theorem contents_split (member : i ∈ slots) :
    contents slots f = ((f i).toList : Multiset α) + contents (slots.erase i) f := by
  have whole : slots.val = i ::ₘ (slots.erase i).val := (Multiset.cons_erase member).symm
  unfold contents
  rw [whole]
  cases held : f i with
  | none => rw [Multiset.filterMap_cons_none _ _ held]; simp
  | some a => rw [Multiset.filterMap_cons_some f _ _ held]; simp

/-- One slot changes: the bag loses what it held and gains what it holds. -/
theorem contents_exchange (member : i ∈ slots) (same : ∀ j ∈ slots, j ≠ i → g j = f j) :
    contents slots g + ((f i).toList : Multiset α) =
      contents slots f + ((g i).toList : Multiset α) := by
  have rest : contents (slots.erase i) g = contents (slots.erase i) f :=
    contents_congr fun j there => same j (Finset.mem_of_mem_erase there) (Finset.ne_of_mem_erase there)
  rw [contents_split member,contents_split (f := f) member,rest]
  abel

theorem contents_put (member : i ∈ slots) (same : ∀ j ∈ slots, j ≠ i → g j = f j)
    (free : f i = none) (put : g i = some a) : contents slots g = a ::ₘ contents slots f := by
  have exchange := contents_exchange member same
  simp only [free,put,Option.toList_none,Option.toList_some,Multiset.coe_nil,
    Multiset.coe_singleton,add_zero] at exchange
  rw [exchange,Multiset.add_comm,Multiset.singleton_add]

theorem contents_take (member : i ∈ slots) (same : ∀ j ∈ slots, j ≠ i → g j = f j)
    (taken : f i = some a) (free : g i = none) : contents slots f = a ::ₘ contents slots g :=
  contents_put member (fun j there other => (same j there other).symm) free taken

theorem contents_move (source : i ∈ slots) (target : j ∈ slots) (apart : i ≠ j)
    (same : ∀ k ∈ slots, k ≠ i → k ≠ j → g k = f k)
    (held : f i = some a) (empty : f j = none) (gone : g i = none) (arrived : g j = some a) :
    contents slots g = contents slots f := by
  have copied : contents slots (Function.update f j (some a)) = a ::ₘ contents slots f :=
    contents_put target (fun k _ other => Function.update_of_ne other _ _) empty
      (Function.update_self _ _ _)
  have cleared : contents slots (Function.update f j (some a)) = a ::ₘ contents slots g := by
    refine contents_take source ?_ ((Function.update_of_ne apart _ _).trans held) gone
    intro k there other
    by_cases at_target : k = j
    · rw [at_target,arrived,Function.update_self]
    · rw [same k there other at_target,Function.update_of_ne at_target]
  exact (Multiset.cons_inj_right a).mp (cleared.symm.trans copied)

end

inductive Op (κ : Type*) where
  | insert (c : κ)
  | find (c : κ)
  | remove (c : κ)
  deriving DecidableEq

variable {κ μ : Type*}

def Op.map (f : κ → μ) : Op κ → Op μ
  | .insert c => .insert (f c)
  | .find c => .find (f c)
  | .remove c => .remove (f c)

/-- A history of calls on keys as one on their classes. -/
def relabel (f : κ → μ) (events : List (Op κ × Bool)) : List (Op μ × Bool) :=
  events.map fun (op,answer) => (op.map f,answer)

/-- The class an answer puts in. -/
def putBy : Op κ × Bool → Option κ
  | (.insert c,true) => some c
  | _ => none

def takenBy : Op κ × Bool → Option κ
  | (.remove c,true) => some c
  | _ => none

def inserted (events : List (Op κ × Bool)) : Multiset κ := events.filterMap putBy

def removed (events : List (Op κ × Bool)) : Multiset κ := events.filterMap takenBy

theorem putBy_map (f : κ → μ) (op : Op κ) (answer : Bool) :
    putBy (op.map f,answer) = (putBy (op,answer)).map f := by
  cases op <;> cases answer <;> rfl

theorem takenBy_map (f : κ → μ) (op : Op κ) (answer : Bool) :
    takenBy (op.map f,answer) = (takenBy (op,answer)).map f := by
  cases op <;> cases answer <;> rfl

theorem inserted_relabel (f : κ → μ) (events : List (Op κ × Bool)) :
    inserted (relabel f events) = (inserted events).map f := by
  simp [inserted,relabel,List.filterMap_map,List.map_filterMap,putBy_map]

theorem removed_relabel (f : κ → μ) (events : List (Op κ × Bool)) :
    removed (relabel f events) = (removed events).map f := by
  simp [removed,relabel,List.filterMap_map,List.map_filterMap,takenBy_map]

variable [DecidableEq κ]

/-- An operation, its answer and the bag after it. An insertion may be refused. -/
inductive Step : Multiset κ → Op κ → Bool → Multiset κ → Prop where
  | stored : Step bag (.insert c) true (c ::ₘ bag)
  | refused : Step bag (.insert c) false bag
  | found : Step bag (.find c) (decide (c ∈ bag)) bag
  | removed (member : c ∈ bag) : Step bag (.remove c) true (bag.erase c)
  | missing (absent : c ∉ bag) : Step bag (.remove c) false bag

/-- The same where an insertion that fails puts its class in and drops one: a stored one or
the new one. -/
inductive LossyStep : Multiset κ → Op κ → Bool → Multiset κ → Prop where
  | stored : LossyStep bag (.insert c) true (c ::ₘ bag)
  | dropped (lost : κ) (rest : lost ::ₘ after = c ::ₘ bag) : LossyStep bag (.insert c) false after
  | found : LossyStep bag (.find c) (decide (c ∈ bag)) bag
  | removed (member : c ∈ bag) : LossyStep bag (.remove c) true (bag.erase c)
  | missing (absent : c ∉ bag) : LossyStep bag (.remove c) false bag

/-- The same where a search or a removal may overlook what is there. -/
inductive HastyStep : Multiset κ → Op κ → Bool → Multiset κ → Prop where
  | stored : HastyStep bag (.insert c) true (c ::ₘ bag)
  | refused : HastyStep bag (.insert c) false bag
  | found (member : c ∈ bag) : HastyStep bag (.find c) true bag
  | overlooked : HastyStep bag (.find c) false bag
  | removed (rest : bag = c ::ₘ after) : HastyStep bag (.remove c) true after
  | missed : HastyStep bag (.remove c) false bag

/-- The answers of a history, the newest first, from the empty bag. -/
inductive Replay : List (Op κ × Bool) → Multiset κ → Prop where
  | start : Replay [] 0
  | step (past : Replay events bag) (now : Step bag op answer after) :
      Replay ((op,answer) :: events) after

theorem Step.balance {bag after : Multiset κ} (now : Step bag op answer after) :
    after + ((takenBy (op,answer)).toList : Multiset κ) =
      bag + ((putBy (op,answer)).toList : Multiset κ) := by
  cases now with
  | @stored c => simp [takenBy,putBy,← Multiset.singleton_add,add_comm]
  | refused => rfl
  | found => rfl
  | @removed c member =>
    have whole : bag.erase c + {c} = bag := by
      rw [add_comm,Multiset.singleton_add,Multiset.cons_erase member]
    simpa [takenBy,putBy] using whole
  | missing => rfl

theorem Step.agree {bag after after' : Multiset κ} (now : Step bag op answer after)
    (now' : Step bag op answer' after') (stored : ∀ c, (op,answer) ≠ (.insert c,false))
    (stored' : ∀ c, (op,answer') ≠ (.insert c,false)) : answer = answer' ∧ after = after' := by
  cases now with
  | stored =>
    cases now' with
    | stored => exact ⟨rfl,rfl⟩
    | refused => exact absurd rfl (stored' _)
  | refused => exact absurd rfl (stored _)
  | found =>
    cases now' with
    | found => exact ⟨rfl,rfl⟩
  | removed member =>
    cases now' with
    | removed => exact ⟨rfl,rfl⟩
    | missing absent => exact absurd member absent
  | missing absent =>
    cases now' with
    | removed member => exact absurd member absent
    | missing => exact ⟨rfl,rfl⟩

/-- The same calls have the same answers, when no insertion is refused. -/
theorem Replay.agree {bag bag' : Multiset κ} (replay : Replay events bag)
    (replay' : Replay events' bag') (same : events.map Prod.fst = events'.map Prod.fst)
    (stored : ∀ c, (.insert c,false) ∉ events) (stored' : ∀ c, (.insert c,false) ∉ events') :
    events = events' ∧ bag = bag' := by
  induction replay generalizing events' bag' with
  | start =>
    cases replay' with
    | start => exact ⟨rfl,rfl⟩
    | step => cases same
  | @step events bag op answer after past now ih =>
    cases replay' with
    | start => cases same
    | step past' now' =>
      obtain ⟨rfl,calls⟩ := List.cons.inj same
      obtain ⟨rfl,rfl⟩ := ih past' calls (fun c there => stored c (List.mem_cons_of_mem _ there))
        fun c there => stored' c (List.mem_cons_of_mem _ there)
      obtain ⟨rfl,rfl⟩ := now.agree now' (fun c refused => stored c (refused ▸ List.mem_cons_self))
        fun c refused => stored' c (refused ▸ List.mem_cons_self)
      exact ⟨rfl,rfl⟩

/-- What was put in and not taken out is there. -/
theorem Replay.balance {bag : Multiset κ} (replay : Replay events bag) :
    bag + removed events = inserted events := by
  induction replay with
  | start => rfl
  | @step events bag op answer after past now ih =>
    have first (held : Op κ × Bool → Option κ) (rest : List (Op κ × Bool)) :
        (((op,answer) :: rest).filterMap held : Multiset κ) =
          ((held (op,answer)).toList : Multiset κ) + (rest.filterMap held : Multiset κ) := by
      cases taken : held (op,answer) <;> simp [taken]
    unfold inserted removed at ih ⊢
    rw [first,first,← add_assoc,now.balance,add_right_comm,ih,add_comm]

end Bag
