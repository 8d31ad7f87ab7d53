import CuckooFilter.BagHistory
import Mathlib.Algebra.Order.BigOperators.Group.Finset
import Mathlib.Algebra.Order.Group.Multiset

/-! Bags with several owners. A thread that takes out only what it has put in itself finds it
there, whatever the calls of the others overlap with, as long as they keep to that too and no
insertion is refused. -/
namespace Bag

variable {κ μ : Type}

/-- What the event puts in for the thread. -/
def gain (tid : Nat) : Linearization.Event (Op κ) Bool → Option κ
  | .respond mover (.insert c) true => if mover = tid then some c else none
  | _ => none

def claim (tid : Nat) : Linearization.Event (Op κ) Bool → Option κ
  | .invoke mover (.remove c) => if mover = tid then some c else none
  | _ => none

def gained (tid : Nat) (history : List (Linearization.Event (Op κ) Bool)) : Multiset κ :=
  history.filterMap (gain tid)

def claimed (tid : Nat) (history : List (Linearization.Event (Op κ) Bool)) : Multiset κ :=
  history.filterMap (claim tid)

/-- The thread has put in one more than it has asked to take out. -/
def Owned (tid : Nat) (c : κ) (history : List (Linearization.Event (Op κ) Bool)) : Prop :=
  c ::ₘ claimed tid history ≤ gained tid history

instance [DecidableEq κ] (tid : Nat) (c : κ)
    (history : List (Linearization.Event (Op κ) Bool)) : Decidable (Owned tid c history) :=
  inferInstanceAs (Decidable (c ::ₘ claimed tid history ≤ gained tid history))

/-- Each removal is of something its caller owns. -/
def Owning : List (Linearization.Event (Op κ) Bool) → Prop
  | [] => True
  | event :: past => (∀ tid c, event = .invoke tid (.remove c) → Owned tid c past) ∧ Owning past

variable {history : List (Linearization.Event (Op κ) Bool)} {tid : Nat} {c : κ}
variable {event : Linearization.Event (Op κ) Bool}

theorem gained_newest : gained tid (event :: history) =
    gained tid history + ((gain tid event).toList : Multiset κ) :=
  tell_cons _ _ _

theorem claimed_newest : claimed tid (event :: history) =
    claimed tid history + ((claim tid event).toList : Multiset κ) :=
  tell_cons _ _ _

theorem gain_other (away : caller event ≠ tid) : gain tid event = none := by
  unfold gain
  split
  · exact if_neg away
  · rfl

theorem claim_other (away : caller event ≠ tid) : claim tid event = none := by
  unfold claim
  split
  · exact if_neg away
  · rfl

theorem gained_other (away : caller event ≠ tid) : gained tid (event :: history) = gained tid history := by
  rw [gained_newest,gain_other away]
  simp

theorem claimed_other (away : caller event ≠ tid) :
    claimed tid (event :: history) = claimed tid history := by
  rw [claimed_newest,claim_other away]
  simp

theorem owned_other (away : caller event ≠ tid) :
    Owned tid c (event :: history) ↔ Owned tid c history := by
  rw [Owned,Owned,gained_other away,claimed_other away]

/-- Nobody asks for more than it has put in. -/
theorem Owning.covered (owning : Owning history) (tid : Nat) :
    claimed tid history ≤ gained tid history := by
  induction history with
  | nil => exact le_rfl
  | cons event past ih =>
    obtain ⟨own,owning⟩ := owning
    have before := ih owning
    rw [gained_newest,claimed_newest]
    cases asks : claim tid event with
    | none =>
      refine le_trans ?_ (Multiset.le_add_right _ _)
      simpa using before
    | some c =>
      have now : event = .invoke tid (.remove c) := by
        unfold claim at asks
        split at asks
        · split at asks
          · rename_i same
            cases asks
            rw [same]
          · cases asks
        · cases asks
      have owned := own tid c now
      subst now
      rw [Owned] at owned
      simpa [gain,← Multiset.singleton_add,add_comm] using owned

section

variable (f : κ → μ)

theorem gain_map : gain tid (event.map (.map f) id) = (gain tid event).map f := by
  cases event with
  | invoke mover call => rfl
  | respond mover call answer =>
    cases call <;> cases answer <;> try rfl
    by_cases own : mover = tid <;> simp [gain,Linearization.Event.map,Op.map,own]

theorem claim_map : claim tid (event.map (.map f) id) = (claim tid event).map f := by
  cases event with
  | invoke mover call =>
    cases call <;> try rfl
    by_cases own : mover = tid <;> simp [claim,Linearization.Event.map,Op.map,own]
  | respond mover call answer => rfl

theorem gained_map :
    gained tid (history.map (.map (.map f) id)) = (gained tid history).map f := by
  simp [gained,List.filterMap_map,List.map_filterMap,gain_map]

theorem claimed_map :
    claimed tid (history.map (.map (.map f) id)) = (claimed tid history).map f := by
  simp [claimed,List.filterMap_map,List.map_filterMap,claim_map]

theorem Owned.map (owned : Owned tid c history) :
    Owned tid (f c) (history.map (.map (.map f) id)) := by
  rw [Owned,gained_map,claimed_map,← Multiset.map_cons]
  exact Multiset.map_le_map owned

theorem Owning.map (owning : Owning history) : Owning (history.map (.map (.map f) id)) := by
  induction history with
  | nil => trivial
  | cons event past ih =>
    obtain ⟨own,owning⟩ := owning
    refine ⟨fun tid c asks => ?_,ih owning⟩
    cases event with
    | invoke mover call =>
      cases call with
      | remove key =>
        cases asks
        exact (own tid key rfl).map f
      | insert | find => cases asks
    | respond => cases asks

end

/-- What a call in progress has in the bag for its thread beside what is told by the events. -/
def stake : Linearization.Phase (Op κ) Bool → Multiset κ
  | .pending (.remove c) => {c}
  | .effective (.insert c) true => {c}
  | _ => 0

structure Unrefused (history : List (Linearization.Event (Op κ) Bool))
    (phases : Nat → Linearization.Phase (Op κ) Bool) : Prop where
  effective : ∀ tid c, phases tid ≠ .effective (.insert c) false
  answered : ∀ tid c, .respond tid (.insert c) false ∉ history

/-- The bag has all that the threads have put in and not asked to take out, so that nobody has
missed anything of its own. -/
structure Stocked (threads : Finset Nat) (history : List (Linearization.Event (Op κ) Bool))
    (phases : Nat → Linearization.Phase (Op κ) Bool) (bag : Multiset κ) : Prop where
  awake : ∀ tid, phases tid ≠ .idle → tid ∈ threads
  stock : ∑ tid ∈ threads, (gained tid history + stake (phases tid)) ≤
    bag + ∑ tid ∈ threads, claimed tid history
  removes : ∀ c, Succeeds (.remove c) history phases
  finds : ∀ tid c, phases tid = .effective (.find c) false → ¬Owned tid c history
  searched : ∀ past tid c, .respond tid (.find c) false :: past <:+ history → ¬Owned tid c past

variable {threads : Finset Nat} {phases : Nat → Linearization.Phase (Op κ) Bool} {bag : Multiset κ}

theorem sum_exchange {f g : Nat → Multiset κ} (member : tid ∈ threads)
    (same : ∀ other, other ≠ tid → g other = f other) :
    ∑ other ∈ threads, g other + f tid = ∑ other ∈ threads, f other + g tid := by
  rw [← Finset.add_sum_erase threads g member,← Finset.add_sum_erase threads f member,
    Finset.sum_congr rfl fun other inside => same other (Finset.ne_of_mem_erase inside)]
  abel

theorem sum_more {f g : Nat → Multiset κ} (member : tid ∈ threads)
    (same : ∀ other, other ≠ tid → g other = f other) (own : g tid = f tid + more) :
    ∑ other ∈ threads, g other = ∑ other ∈ threads, f other + more := by
  have exchange := sum_exchange member same
  rw [own,← add_assoc,add_right_comm] at exchange
  exact add_right_cancel exchange

theorem Stocked.there (stocked : Stocked threads history phases bag) (owning : Owning history)
    (member : tid ∈ threads)
    (owned : c ::ₘ claimed tid history ≤ gained tid history + stake (phases tid)) : c ∈ bag := by
  have supply (other : Nat) : claimed other history ≤ gained other history + stake (phases other) :=
    (owning.covered other).trans (Multiset.le_add_right _ _)
  have all : ∑ other ∈ threads, claimed other history + {c} ≤
      bag + ∑ other ∈ threads, claimed other history := by
    refine le_trans ?_ stocked.stock
    rw [← Finset.add_sum_erase threads _ member,← Finset.add_sum_erase threads _ member,
      add_right_comm,add_comm _ ({c} : Multiset κ),Multiset.singleton_add]
    exact add_le_add owned (Finset.sum_le_sum fun other _ => supply other)
  rw [add_comm] at all
  exact Multiset.singleton_le.mp (le_of_add_le_add_right all)

/-- The events of one thread leave the others alone. -/
theorem searched_newest (newest : ∀ c, event = .respond tid (.find c) false → ¬Owned tid c history)
    (own : caller event = tid)
    (searched : ∀ past tid c, .respond tid (.find c) false :: past <:+ history → ¬Owned tid c past)
    (past : List (Linearization.Event (Op κ) Bool)) (other : Nat) (c : κ)
    (within : .respond other (.find c) false :: past <:+ event :: history) : ¬Owned other c past := by
  rcases List.suffix_cons_iff.mp within with same | before
  · obtain ⟨now,rest⟩ := List.cons.inj same
    subst now
    obtain rfl : other = tid := own
    exact rest ▸ newest c rfl
  · exact searched past other c before

theorem invoke_stocked (stocked : Stocked threads history phases bag) (member : tid ∈ threads)
    (idle : phases tid = .idle) (call : Op κ) : Stocked threads (.invoke tid call :: history)
      (Function.update phases tid (.pending call)) bag := by
  have away (other : Nat) (apart : other ≠ tid) :
      caller (.invoke tid call : Linearization.Event (Op κ) Bool) ≠ other := Ne.symm apart
  refine ⟨awake_update stocked.awake member _,?_,fun c => (stocked.removes c).invoke tid call,
    fun other c missed => ?_,
    searched_newest (by simp) rfl stocked.searched⟩
  · have asked : ∑ other ∈ threads, claimed other (.invoke tid call :: history) =
        ∑ other ∈ threads, claimed other history +
          ((claim tid (.invoke tid call)).toList : Multiset κ) :=
      sum_more member (fun other apart => claimed_other (away other apart)) claimed_newest
    have more : ∑ other ∈ threads, (gained other (.invoke tid call :: history) +
          stake (Function.update phases tid (.pending call) other)) =
        ∑ other ∈ threads, (gained other history + stake (phases other)) +
          ((claim tid (.invoke tid call)).toList : Multiset κ) := by
      refine sum_more member (fun other apart => ?_) ?_
      · rw [gained_other (away other apart),Function.update_of_ne apart]
      · rw [gained_newest,Function.update_self,idle]
        cases call <;> simp [gain,claim,stake]
    rw [asked,more,← add_assoc]
    exact add_le_add_left stocked.stock _
  · have apart : other ≠ tid := by
      rintro rfl
      rw [Function.update_self] at missed
      cases missed
    rw [Function.update_of_ne apart] at missed
    rw [owned_other (away other apart)]
    exact stocked.finds other c missed

theorem respond_stocked (stocked : Stocked threads history phases bag) (member : tid ∈ threads)
    {call : Op κ} {answer : Bool} (effective : phases tid = .effective call answer) :
    Stocked threads (.respond tid call answer :: history) (Function.update phases tid .idle)
      bag := by
  have away (other : Nat) (apart : other ≠ tid) :
      caller (.respond tid call answer : Linearization.Event (Op κ) Bool) ≠ other := Ne.symm apart
  refine ⟨awake_update stocked.awake member _,?_,fun c => (stocked.removes c).respond effective,
    fun other c missed => ?_,searched_newest (fun c newest => ?_) rfl stocked.searched⟩
  · have asked (other : Nat) :
        claimed other (.respond tid call answer :: history) = claimed other history := by
      rw [claimed_newest]
      simp [claim]
    have same (other : Nat) : gained other (.respond tid call answer :: history) +
        stake (Function.update phases tid .idle other) =
          gained other history + stake (phases other) := by
      by_cases own : other = tid
      · subst other
        rw [gained_newest,Function.update_self,effective]
        cases call <;> cases answer <;> simp [gain,stake]
      · rw [gained_other (away other own),Function.update_of_ne own]
    simp only [asked,same]
    exact stocked.stock
  · have apart : other ≠ tid := by
      rintro rfl
      rw [Function.update_self] at missed
      cases missed
    rw [Function.update_of_ne apart] at missed
    rw [owned_other (away other apart)]
    exact stocked.finds other c missed
  · cases newest
    exact stocked.finds tid c effective

variable [DecidableEq κ]

/-- The bag gives and takes what the stake of the call does. -/
theorem lossy_stake {call : Op κ} {answer : Bool} {after : Multiset κ}
    (accepted : LossyStep bag call answer after) (stored : ∀ c, (call,answer) ≠ (.insert c,false)) :
    after + stake (.pending call) = bag + stake (.effective call answer) ∨
      ∃ c, call = .remove c ∧ c ∉ bag := by
  cases accepted with
  | stored => exact .inl (by simp [stake,← Multiset.singleton_add,add_comm])
  | dropped => exact absurd rfl (stored _)
  | found => exact .inl rfl
  | removed member =>
    refine .inl ?_
    simpa [stake,← Multiset.singleton_add,add_comm] using Multiset.cons_erase member
  | missing absent => exact .inr ⟨_,rfl,absent⟩

theorem effect_stocked (stocked : Stocked threads history phases bag) (owning : Owning history)
    {call : Op κ} {answer : Bool} {after : Multiset κ} (pending : phases tid = .pending call)
    (accepted : LossyStep bag call answer after)
    (stored : ∀ c, (call,answer) ≠ (.insert c,false)) :
    Stocked threads history (Function.update phases tid (.effective call answer)) after := by
  have member : tid ∈ threads := stocked.awake tid (by rw [pending]; simp)
  have own (c : κ) (removal : call = .remove c) : c ∈ bag := by
    apply stocked.there owning member
    rw [pending,removal,← Multiset.singleton_add,add_comm]
    exact add_le_add_left (owning.covered tid) _
  refine ⟨awake_update stocked.awake member _,?_,
    fun c => (stocked.removes c).effect tid fun removal => ?_,fun other c missed => ?_,
    stocked.searched⟩
  · rcases lossy_stake accepted stored with moved | ⟨c,removal,absent⟩
    · have exchange := sum_exchange member
        (f := fun other => gained other history + stake (phases other))
        (g := fun other => gained other history +
          stake (Function.update phases tid (.effective call answer) other))
        fun other apart => by rw [Function.update_of_ne apart]
      rw [Function.update_self,pending] at exchange
      have supply : ∑ other ∈ threads, (gained other history +
            stake (Function.update phases tid (.effective call answer) other)) +
              stake (.pending call) =
          ∑ other ∈ threads, (gained other history + stake (phases other)) +
            stake (.effective call answer) := by
        apply add_right_cancel (b := gained tid history)
        rw [add_assoc,add_comm (stake (.pending call)),exchange]
        abel
      apply le_of_add_le_add_right (a := stake (.pending call))
      rw [supply,add_right_comm,moved,add_right_comm bag]
      exact add_le_add_left stocked.stock _
    · exact absurd (own c removal) absent
  · subst removal
    cases accepted with
    | removed => rfl
    | missing absent => exact absurd (own c rfl) absent
  · by_cases same : other = tid
    · subst other
      rw [Function.update_self] at missed
      obtain ⟨rfl,rfl⟩ : call = .find c ∧ answer = false := by simpa using missed
      intro owned
      have there := stocked.there owning member (owned.trans (Multiset.le_add_right _ _))
      generalize decided : false = answer at accepted
      cases accepted with
      | found => exact of_decide_eq_false decided.symm there
    · rw [Function.update_of_ne same] at missed
      exact stocked.finds other c missed

theorem linearizes_stocked
    (linearizes : Linearization.Linearizes ⟨0,LossyStep⟩ history phases bag)
    (threads : Finset Nat) (calls : ∀ event ∈ history, caller event ∈ threads)
    (unrefused : Unrefused history phases) (owning : Owning history) :
    Stocked threads history phases bag := by
  induction linearizes with
  | start =>
    refine ⟨fun tid busy => absurd rfl busy,?_,fun c => ⟨by simp,by simp⟩,by simp,by simp⟩
    simp [gained,claimed,stake]
  | @invoke history phases bag tid past idle call ih =>
    have unrefused' : Unrefused history phases := by
      refine ⟨fun other c refused => ?_,fun other c there =>
        unrefused.answered other c (List.mem_cons_of_mem _ there)⟩
      apply unrefused.effective other c
      rwa [Function.update_of_ne (by rintro rfl; rw [idle] at refused; cases refused)]
    have stocked := ih (fun event there => calls event (List.mem_cons_of_mem _ there)) unrefused'
      owning.2
    exact invoke_stocked stocked (calls _ List.mem_cons_self) idle call
  | @effect history phases bag tid call answer after past pending accepted ih =>
    have unrefused' : Unrefused history phases := by
      refine ⟨fun other c refused => ?_,unrefused.answered⟩
      apply unrefused.effective other c
      rwa [Function.update_of_ne (by rintro rfl; rw [pending] at refused; cases refused)]
    refine effect_stocked (ih calls unrefused' owning) owning pending accepted fun c refused => ?_
    apply unrefused.effective tid c
    rw [Function.update_self]
    cases refused
    rfl
  | @respond history phases bag tid call answer past effective ih =>
    have unrefused' : Unrefused history phases := by
      refine ⟨fun other c refused => ?_,fun other c there =>
        unrefused.answered other c (List.mem_cons_of_mem _ there)⟩
      by_cases own : other = tid
      · subst other
        cases effective.symm.trans refused
        exact unrefused.answered tid c List.mem_cons_self
      · exact unrefused.effective other c (by rwa [Function.update_of_ne own])
    have stocked := ih (fun event there => calls event (List.mem_cons_of_mem _ there)) unrefused'
      owning.2
    exact respond_stocked stocked (calls _ List.mem_cons_self) effective

/-- While no insertion is refused and each thread takes out only its own, each removal
succeeds, and each search for something its caller owns. -/
theorem owners_succeed (linearizes : Linearization.Linearizes ⟨0,LossyStep⟩ history phases bag)
    (unrefused : Unrefused history phases) (owning : Owning history) :
    (∀ tid c answer, .respond tid (.remove c) answer ∈ history → answer = true) ∧
      ∀ past tid c answer, .respond tid (.find c) answer :: past <:+ history →
        Owned tid c past → answer = true := by
  have stocked := linearizes_stocked linearizes (callers history) (fun _ => caller_mem) unrefused
    owning
  refine ⟨fun tid c => (stocked.removes c).answered tid,fun past tid c answer within owned => ?_⟩
  cases answer with
  | true => rfl
  | false => exact absurd owned (stocked.searched past tid c within)

end Bag
