import CuckooFilter.Bag
import CuckooFilter.Linearization
import Mathlib.Data.Finset.Dedup

/-! Bags under calls that overlap: what the answers of a history say about the bag. A call
that has taken effect and has not answered yet is a credit of its thread. -/
namespace Bag

variable {κ α : Type}

def caller : Linearization.Event (Op κ) Bool → Nat
  | .invoke tid _ | .respond tid _ _ => tid

def callers (history : List (Linearization.Event (Op κ) Bool)) : Finset Nat :=
  (history.map caller).toFinset

theorem caller_mem {event : Linearization.Event (Op κ) Bool} (member : event ∈ history) :
    caller event ∈ callers history :=
  List.mem_toFinset.mpr (List.mem_map_of_mem member)

def answer? : Linearization.Event (Op κ) Bool → Option (Op κ × Bool)
  | .invoke _ _ => none
  | .respond _ call answer => some (call,answer)

def answers (history : List (Linearization.Event (Op κ) Bool)) : List (Op κ × Bool) :=
  history.filterMap answer?

/-- What the threads have in hand, each as `credit` sees its phase. -/
def credits (threads : Finset Nat) (credit : Linearization.Phase (Op κ) Bool → Option α)
    (phases : Nat → Linearization.Phase (Op κ) Bool) : Multiset α :=
  contents threads fun tid => credit (phases tid)

theorem credits_update (credit : Linearization.Phase (Op κ) Bool → Option α)
    (member : tid ∈ threads) (phases : Nat → Linearization.Phase (Op κ) Bool)
    (phase : Linearization.Phase (Op κ) Bool) :
    credits threads credit (Function.update phases tid phase) +
        ((credit (phases tid)).toList : Multiset α) =
      credits threads credit phases + ((credit phase).toList : Multiset α) := by
  have exchange := contents_exchange (f := fun tid => credit (phases tid))
    (g := fun other => credit (Function.update phases tid phase other)) member
    fun other _ away => by rw [Function.update_of_ne away]
  simpa only [credits,Function.update_self] using exchange

theorem credits_none (credit : Linearization.Phase (Op κ) Bool → Option α)
    {phases : Nat → Linearization.Phase (Op κ) Bool} (none : ∀ tid, credit (phases tid) = none) :
    credits threads credit phases = 0 := by
  refine Multiset.eq_zero_of_forall_notMem fun a member => ?_
  obtain ⟨tid,-,some⟩ := mem_contents.mp member
  rw [none tid] at some
  contradiction

/-- The class that a call with its effect behind it has taken out. -/
def takenCredit : Linearization.Phase (Op κ) Bool → Option κ
  | .effective call answer => takenBy (call,answer)
  | _ => none

def putCredit : Linearization.Phase (Op κ) Bool → Option κ
  | .effective call answer => putBy (call,answer)
  | _ => none

/-- The effects put in and take out what the answers say. -/
def Balances (step : Multiset κ → Op κ → Bool → Multiset κ → Prop) : Prop :=
  ∀ bag op answer after, step bag op answer after →
    after + ((takenBy (op,answer)).toList : Multiset κ) =
      bag + ((putBy (op,answer)).toList : Multiset κ)

theorem hasty_balances [DecidableEq κ] : Balances (κ := κ) HastyStep := by
  intro bag op answer after now
  cases now with
  | @stored c => simp [takenBy,putBy,← Multiset.singleton_add,add_comm]
  | refused => rfl
  | found => rfl
  | overlooked => rfl
  | removed rest =>
    rw [rest]
    simp [takenBy,putBy,← Multiset.singleton_add,add_comm]
  | missed => rfl

theorem tell_cons {Event : Type} (held : Event → Option κ) (event : Event)
    (events : List Event) : ((event :: events).filterMap held : Multiset κ) =
      (events.filterMap held : Multiset κ) + ((held event).toList : Multiset κ) := by
  cases now : held event with
  | none => simp [now]
  | some c => simp [now,← Multiset.cons_coe,← Multiset.singleton_add,add_comm]

variable {step : Multiset κ → Op κ → Bool → Multiset κ → Prop} {initial bag : Multiset κ}
variable {history : List (Linearization.Event (Op κ) Bool)} {tid : Nat} {c : κ}
variable {phases : Nat → Linearization.Phase (Op κ) Bool} {threads : Finset Nat}

theorem awake_update (awake : ∀ tid, phases tid ≠ .idle → tid ∈ threads) (member : tid ∈ threads)
    (phase : Linearization.Phase (Op κ) Bool) (other : Nat)
    (busy : Function.update phases tid phase other ≠ .idle) : other ∈ threads := by
  by_cases own : other = tid
  · exact own ▸ member
  · rw [Function.update_of_ne own] at busy
    exact awake other busy

/-- The bag, the answers and the credits go together. -/
theorem linearizes_credits (balances : Balances step)
    (linearizes : Linearization.Linearizes ⟨initial,step⟩ history phases bag)
    (threads : Finset Nat) (calls : ∀ event ∈ history, caller event ∈ threads) :
    (∀ tid, phases tid ≠ .idle → tid ∈ threads) ∧
      bag + removed (answers history) + credits threads takenCredit phases =
        initial + inserted (answers history) + credits threads putCredit phases := by
  induction linearizes with
  | start =>
    refine ⟨fun tid busy => absurd rfl busy,?_⟩
    rw [credits_none takenCredit fun _ => rfl,credits_none putCredit fun _ => rfl]
    rfl
  | @invoke history phases bag tid past idle call ih =>
    obtain ⟨busy,balance⟩ := ih fun event member => calls event (List.mem_cons_of_mem _ member)
    have member : tid ∈ threads := calls _ List.mem_cons_self
    have taken := credits_update takenCredit member phases (.pending call)
    have put := credits_update putCredit member phases (.pending call)
    rw [idle] at taken put
    simp only [takenCredit,putCredit,Option.toList_none,Multiset.coe_nil,add_zero] at taken put
    exact ⟨awake_update busy member _,by rw [taken,put]; exact balance⟩
  | @effect history phases bag tid call answer after past pending accepted ih =>
    obtain ⟨busy,balance⟩ := ih calls
    have member : tid ∈ threads := busy tid (by rw [pending]; simp)
    have taken := credits_update takenCredit member phases (.effective call answer)
    have put := credits_update putCredit member phases (.effective call answer)
    rw [pending] at taken put
    simp only [takenCredit,putCredit,Option.toList_none,Multiset.coe_nil,add_zero] at taken put
    have moved := balances bag call answer after accepted
    refine ⟨awake_update busy member _,?_⟩
    rw [taken,put]
    calc after + removed (answers history) +
          (credits threads takenCredit phases + ((takenBy (call,answer)).toList : Multiset κ))
        = after + ((takenBy (call,answer)).toList : Multiset κ) + removed (answers history) +
            credits threads takenCredit phases := by abel
      _ = bag + removed (answers history) + credits threads takenCredit phases +
            ((putBy (call,answer)).toList : Multiset κ) := by rw [moved]; abel
      _ = initial + inserted (answers history) +
            (credits threads putCredit phases + ((putBy (call,answer)).toList : Multiset κ)) := by
          rw [balance]; abel
  | @respond history phases bag tid call answer past effective ih =>
    obtain ⟨busy,balance⟩ := ih fun event member => calls event (List.mem_cons_of_mem _ member)
    have member : tid ∈ threads := calls _ List.mem_cons_self
    have taken := credits_update takenCredit member phases .idle
    have put := credits_update putCredit member phases .idle
    rw [effective] at taken put
    simp only [takenCredit,putCredit,Option.toList_none,Multiset.coe_nil,add_zero] at taken put
    refine ⟨awake_update busy member _,?_⟩
    have gone := tell_cons takenBy (call,answer) (answers history)
    have come := tell_cons putBy (call,answer) (answers history)
    calc bag + removed ((call,answer) :: answers history) +
          credits threads takenCredit (Function.update phases tid .idle)
        = bag + removed (answers history) + credits threads takenCredit phases := by
          rw [← taken,removed,removed,gone]; abel
      _ = initial + inserted ((call,answer) :: answers history) +
            credits threads putCredit (Function.update phases tid .idle) := by
          rw [balance,← put,inserted,inserted,come]; abel

/-- A history whose calls have all answered leaves the bag that its answers tell. -/
theorem linearizes_balance (balances : Balances step)
    (linearizes : Linearization.Linearizes ⟨initial,step⟩ history phases bag)
    (idle : ∀ tid, phases tid = .idle) :
    bag + removed (answers history) = initial + inserted (answers history) := by
  have balance := (linearizes_credits balances linearizes (callers history) fun _ => caller_mem).2
  rw [credits_none takenCredit fun tid => by rw [idle]; rfl,
    credits_none putCredit fun tid => by rw [idle]; rfl,add_zero,add_zero] at balance
  exact balance

section

variable [DecidableEq κ]

/-- How often the history asks for a class to be removed. -/
def asked (c : κ) (history : List (Linearization.Event (Op κ) Bool)) : Nat :=
  history.countP fun event =>
    match event with
    | .invoke _ call => call = .remove c
    | .respond _ _ _ => false

/-- A removal of the class that has not taken effect. -/
def waitingCredit (c : κ) (phase : Linearization.Phase (Op κ) Bool) : Option Unit :=
  if phase = .pending (.remove c) then some () else none

/-- No call of the operation has failed. -/
structure Succeeds (op : Op κ) (history : List (Linearization.Event (Op κ) Bool))
    (phases : Nat → Linearization.Phase (Op κ) Bool) : Prop where
  effective : ∀ tid answer, phases tid = .effective op answer → answer = true
  answered : ∀ tid answer, .respond tid op answer ∈ history → answer = true

omit [DecidableEq κ] in
theorem Succeeds.invoke {op : Op κ} (succeeds : Succeeds op history phases) (tid : Nat)
    (call : Op κ) : Succeeds op (.invoke tid call :: history)
      (Function.update phases tid (.pending call)) := by
  refine ⟨fun other answer now => ?_,fun other answer there => ?_⟩
  · by_cases own : other = tid
    · subst other
      rw [Function.update_self] at now
      contradiction
    · rw [Function.update_of_ne own] at now
      exact succeeds.effective other answer now
  · exact succeeds.answered other answer (by simpa using there)

omit [DecidableEq κ] in
theorem Succeeds.effect {op : Op κ} (succeeds : Succeeds op history phases) (tid : Nat)
    {call : Op κ} {answer : Bool} (well : call = op → answer = true) :
    Succeeds op history (Function.update phases tid (.effective call answer)) := by
  refine ⟨fun other answer' now => ?_,succeeds.answered⟩
  by_cases own : other = tid
  · subst other
    rw [Function.update_self] at now
    cases now
    exact well rfl
  · rw [Function.update_of_ne own] at now
    exact succeeds.effective other answer' now

omit [DecidableEq κ] in
theorem Succeeds.respond {op : Op κ} (succeeds : Succeeds op history phases)
    (effective : phases tid = .effective call answer) :
    Succeeds op (.respond tid call answer :: history) (Function.update phases tid .idle) := by
  refine ⟨fun other answer' now => ?_,fun other answer' there => ?_⟩
  · by_cases own : other = tid
    · subst other
      rw [Function.update_self] at now
      contradiction
    · rw [Function.update_of_ne own] at now
      exact succeeds.effective other answer' now
  · rcases List.mem_cons.mp there with now | before
    · cases now
      exact succeeds.effective tid answer effective
    · exact succeeds.answered other answer' before

/-- With enough copies at the start no removal of the class has failed, and no search for
the class while there is one more. -/
structure Plenty (c : κ) (threads : Finset Nat) (initial bag : Multiset κ)
    (history : List (Linearization.Event (Op κ) Bool))
    (phases : Nat → Linearization.Phase (Op κ) Bool) : Prop where
  awake : ∀ tid, phases tid ≠ .idle → tid ∈ threads
  count : initial.count c + (credits threads (waitingCredit c) phases).card ≤
    bag.count c + asked c history
  removes : Succeeds (.remove c) history phases
  finds : asked c history < initial.count c → Succeeds (.find c) history phases

theorem waiting_update (member : tid ∈ threads) (phases : Nat → Linearization.Phase (Op κ) Bool)
    (phase : Linearization.Phase (Op κ) Bool) :
    (credits threads (waitingCredit c) (Function.update phases tid phase)).card +
        (if phases tid = .pending (.remove c) then 1 else 0) =
      (credits threads (waitingCredit c) phases).card +
        (if phase = .pending (.remove c) then 1 else 0) := by
  have weight (phase : Linearization.Phase (Op κ) Bool) :
      ((waitingCredit c phase).toList : Multiset Unit).card =
        if phase = .pending (.remove c) then 1 else 0 := by
    unfold waitingCredit
    split <;> rfl
  have exchange := congrArg Multiset.card
    (credits_update (waitingCredit c) member phases phase)
  rwa [Multiset.card_add,Multiset.card_add,weight,weight] at exchange

theorem step_count {after : Multiset κ} (now : Step bag op answer after) (c : κ) :
    bag.count c ≤ after.count c + (if op = .remove c then 1 else 0) ∧
      (op = .remove c → answer = false → bag.count c = 0) ∧
      (op = .find c → answer = false → bag.count c = 0) := by
  cases now with
  | @stored d =>
    refine ⟨?_,by simp,by simp⟩
    have := Multiset.count_le_count_cons c d bag
    omega
  | refused => simp
  | @found d =>
    refine ⟨by simp,by simp,fun same absent => ?_⟩
    cases same
    exact Multiset.count_eq_zero.mpr (of_decide_eq_false absent)
  | @removed d member =>
    refine ⟨?_,by simp,by simp⟩
    by_cases same : d = c
    · subst d
      rw [Multiset.count_erase_self,if_pos rfl]
      omega
    · rw [Multiset.count_erase_of_ne (Ne.symm same)]
      omega
  | @missing d absent =>
    refine ⟨Nat.le_add_right _ _,fun same _ => ?_,by simp⟩
    cases same
    exact Multiset.count_eq_zero.mpr absent

theorem linearizes_plenty
    (linearizes : Linearization.Linearizes ⟨initial,Step⟩ history phases bag)
    (threads : Finset Nat) (calls : ∀ event ∈ history, caller event ∈ threads)
    (enough : asked c history ≤ initial.count c) :
    Plenty c threads initial bag history phases := by
  induction linearizes with
  | start =>
    refine ⟨fun tid busy => absurd rfl busy,?_,⟨by simp,by simp⟩,fun _ => ⟨by simp,by simp⟩⟩
    rw [credits_none (waitingCredit c) fun _ => rfl]
    rfl
  | @invoke history phases bag tid past idle call ih =>
    have member : tid ∈ threads := calls _ List.mem_cons_self
    have more : asked c (.invoke tid call :: history) =
        asked c history + if call = .remove c then 1 else 0 := by
      simp [asked,List.countP_cons]
    have plenty := ih (fun event there => calls event (List.mem_cons_of_mem _ there)) (by omega)
    have waiting := waiting_update (c := c) member phases (.pending call)
    rw [idle] at waiting
    simp only [Linearization.Phase.pending.injEq,reduceCtorEq,if_false] at waiting
    have count := plenty.count
    refine ⟨awake_update plenty.awake member _,?_,plenty.removes.invoke tid call,
      fun spare => (plenty.finds (by omega)).invoke tid call⟩
    rw [more]
    omega
  | @effect history phases bag tid call answer after past pending accepted ih =>
    have plenty := ih calls enough
    have member : tid ∈ threads := plenty.awake tid (by rw [pending]; simp)
    have waiting := waiting_update (c := c) member phases (.effective call answer)
    rw [pending] at waiting
    simp only [Linearization.Phase.pending.injEq,reduceCtorEq,if_false] at waiting
    obtain ⟨less,fails,misses⟩ := step_count accepted c
    have count := plenty.count
    refine ⟨awake_update plenty.awake member _,?_,plenty.removes.effect tid ?_,
      fun spare => (plenty.finds spare).effect tid ?_⟩
    · omega
    · -- This removal is one of those asked for, so a copy is left for it.
      intro removal
      by_contra failed
      have gone := fails removal (Bool.eq_false_of_not_eq_true failed)
      rw [if_pos removal] at waiting
      omega
    · intro search
      by_contra failed
      have gone := misses search (Bool.eq_false_of_not_eq_true failed)
      omega
  | @respond history phases bag tid call answer past effective ih =>
    have member : tid ∈ threads := calls _ List.mem_cons_self
    have same : asked c (.respond tid call answer :: history) = asked c history := by
      simp [asked]
    have plenty :=
      ih (fun event there => calls event (List.mem_cons_of_mem _ there)) (same ▸ enough)
    have waiting := waiting_update (c := c) member phases .idle
    rw [effective] at waiting
    simp only [reduceCtorEq,if_false,add_zero] at waiting
    refine ⟨awake_update plenty.awake member _,?_,plenty.removes.respond effective,
      fun spare => (plenty.finds (same ▸ spare)).respond effective⟩
    rw [same,waiting]
    exact plenty.count

/-- While as many copies are there as removals ask for, each of them succeeds. -/
theorem removals_succeed
    (linearizes : Linearization.Linearizes ⟨initial,Step⟩ history phases bag)
    (enough : asked c history ≤ initial.count c) (there : .respond tid (.remove c) answer ∈ history) :
    answer = true :=
  (linearizes_plenty linearizes (callers history) (fun _ => caller_mem)
    enough).removes.answered tid answer there

theorem searches_succeed
    (linearizes : Linearization.Linearizes ⟨initial,Step⟩ history phases bag)
    (spare : asked c history < initial.count c) (there : .respond tid (.find c) answer ∈ history) :
    answer = true :=
  ((linearizes_plenty linearizes (callers history) (fun _ => caller_mem)
    spare.le).finds spare).answered tid answer there

end

end Bag
