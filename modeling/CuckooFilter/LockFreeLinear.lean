import CuckooFilter.Linearization
import CuckooFilter.LockFreeFind
import CuckooFilter.LockFreeRemoval
import CuckooFilter.LockFreeSingle

/-! The filter as an object under any interleaving that meets the guards of the other
modules. An insertion and a removal take effect at the compare-and-swap that ends them, a
search that finds its key at the read of the slot it finds it in. A search may overlook a
key that is moved behind it. -/
namespace CuckooFilter.LockFree

/-- A run from a state with its calls and answers, the newest first. -/
inductive Recorded (cfg : Config) (condition : Nat → System → Prop) (origin : System) :
    List (Linearization.Event Call Response) → System → Prop where
  | start : Recorded cfg condition origin [] origin
  | invoke {s t : System} (past : Recorded cfg condition origin history s)
      (allowed : condition tid s) (moved : step cfg s tid (.invoke call) = some t) :
      Recorded cfg condition origin (.invoke tid call :: history) t
  | inside {s t : System} (past : Recorded cfg condition origin history s)
      (allowed : condition tid s) (busy : s.control tid ≠ .idle) (moved : StepBy cfg tid s t)
      (silent : t.memory.returned = s.memory.returned) : Recorded cfg condition origin history t
  | respond {s t : System} (past : Recorded cfg condition origin history s)
      (allowed : condition tid s) (moved : StepBy cfg tid s t)
      (returned : t.memory.returned = (tid,call,response) :: s.memory.returned) :
      Recorded cfg condition origin (.respond tid call response :: history) t

variable {cfg : Config} {condition : Nat → System → Prop} {origin s t : System} {m : Memory}
variable {tid : Nat}

theorem Recorded.run (recorded : Recorded cfg condition origin history s) :
    Run cfg condition origin s := by
  induction recorded with
  | start => exact .refl
  | invoke _ allowed moved ih => exact .tail ih ⟨_,allowed,_,moved⟩
  | inside _ allowed _ moved _ ih => exact .tail ih ⟨_,allowed,moved⟩
  | respond _ allowed moved _ ih => exact .tail ih ⟨_,allowed,moved⟩

theorem step_invoke_idle (moved : step cfg s tid (.invoke call) = some t) :
    s.control tid = .idle ∧ t.memory = (invoke cfg tid s.memory call).1 ∧
      t.control tid = (invoke cfg tid s.memory call).2 := by
  unfold step at moved
  split at moved
  · contradiction
  · simp only [threadStep] at moved
    by_cases idle : s.control tid = .idle
    · rw [if_pos idle] at moved
      cases moved
      exact ⟨idle,rfl,if_pos rfl⟩
    · rw [if_neg idle] at moved
      contradiction

theorem idle_invokes (idle : s.control tid = .idle) (moved : step cfg s tid action = some t) :
    ∃ call, action = .invoke call := by
  cases action with
  | invoke call => exact ⟨call,rfl⟩
  | _ => simp [step,threadStep,idle] at moved

theorem run_recorded (run : Run cfg condition origin s) :
    ∃ history, Recorded cfg condition origin history s := by
  induction run with
  | refl => exact ⟨[],.start⟩
  | @tail s t _ last ih =>
    obtain ⟨history,past⟩ := ih
    obtain ⟨tid,allowed,action,moved⟩ := last
    by_cases idle : s.control tid = .idle
    · obtain ⟨call,rfl⟩ := idle_invokes idle moved
      exact ⟨_,past.invoke allowed moved⟩
    · cases step_report ⟨action,moved⟩ with
      | silent same => exact ⟨_,past.inside allowed idle ⟨action,moved⟩ same.returned⟩
      | stored _ returned => exact ⟨_,past.respond allowed ⟨action,moved⟩ returned⟩
      | removed _ returned => exact ⟨_,past.respond allowed ⟨action,moved⟩ returned⟩
      | answered _ _ returned => exact ⟨_,past.respond allowed ⟨action,moved⟩ returned⟩

def eventOf (s t : System) (tid : Nat) : Action → List (Linearization.Event Call Response)
  | .invoke call => [.invoke tid call]
  | _ =>
    if t.memory.returned = s.memory.returned then []
    else t.memory.returned.head?.toList.map fun (tid,call,response) => .respond tid call response

def executeRecorded (cfg : Config) : List (Nat × Action) →
    List (Linearization.Event Call Response) → System →
    Option (List (Linearization.Event Call Response) × System)
  | [],history,s => some (history,s)
  | (tid,action) :: schedule,history,s => (step cfg s tid action).bind fun t =>
      executeRecorded cfg schedule (eventOf s t tid action ++ history) t

theorem event_recorded (past : Recorded cfg (fun _ _ => True) origin history s)
    (moved : step cfg s tid action = some t) :
    Recorded cfg (fun _ _ => True) origin (eventOf s t tid action ++ history) t := by
  by_cases idle : s.control tid = .idle
  · obtain ⟨call,rfl⟩ := idle_invokes idle moved
    exact past.invoke trivial moved
  · have event : eventOf s t tid action = if t.memory.returned = s.memory.returned then [] else
        t.memory.returned.head?.toList.map fun (tid,call,response) => .respond tid call response := by
      cases action with
      | invoke call => exact absurd (step_invoke_idle moved).1 idle
      | _ => rfl
    rw [event]
    cases step_report ⟨action,moved⟩ with
    | silent same =>
      rw [if_pos same.returned]
      exact past.inside trivial idle ⟨action,moved⟩ same.returned
    | stored _ returned | removed _ returned | answered _ _ returned =>
      rw [returned,if_neg (List.cons_ne_self _ _)]
      exact past.respond trivial ⟨action,moved⟩ returned

theorem execute_recorded (schedule : List (Nat × Action))
    (past : Recorded cfg (fun _ _ => True) origin history s)
    (executes : executeRecorded cfg schedule history s = some (final,t)) :
    execute cfg schedule s = some t ∧ Recorded cfg (fun _ _ => True) origin final t := by
  induction schedule generalizing history s with
  | nil =>
    cases executes
    exact ⟨rfl,past⟩
  | cons head schedule ih =>
    obtain ⟨tid,action⟩ := head
    obtain ⟨u,moved,rest⟩ := Option.bind_eq_some_iff.mp executes
    obtain ⟨same,recorded⟩ := ih (event_recorded past moved) rest
    exact ⟨Option.bind_eq_some_iff.mpr ⟨u,moved,same⟩,recorded⟩

/-- The last part of a schedule with its calls and answers. -/
theorem endState_recorded (front rest : List (Nat × Action))
    (begins : (execute cfg front System.initial).isSome = true)
    (events : (executeRecorded cfg rest [] (endState cfg front)).map Prod.fst = some history) :
    Recorded cfg (fun _ _ => True) (endState cfg front) history (endState cfg (front ++ rest)) := by
  obtain ⟨s,executed⟩ := Option.isSome_iff_exists.mp begins
  obtain ⟨⟨final,t⟩,executes,rfl⟩ := Option.map_eq_some_iff.mp events
  obtain ⟨same,recorded⟩ := execute_recorded rest .start executes
  have middle : endState cfg front = s := by rw [endState,executed]; rfl
  have last : endState cfg (front ++ rest) = t := by
    rw [middle] at same
    rw [endState,execute_append,executed,Option.bind_some,same]
    rfl
  rw [last]
  exact recorded

/-- The classes of the entries that were stored and that no removal has taken. -/
def Memory.live (cfg : Config) (m : Memory) : Multiset KeyClass :=
  ((m.stored.filter fun x => !m.taken.contains x.entry).map fun x => cfg.keyClass x.key :
    List KeyClass)

theorem live_eq (cfg : Config) (m : Memory) : m.live cfg =
    ((m.stored.filter fun x => x.entry ∉ m.taken).map fun x => cfg.keyClass x.key :
      List KeyClass) := by
  simp [Memory.live]

theorem live_same {next : Memory} (stored : next.stored = m.stored)
    (removed : next.removed = m.removed) : next.live cfg = m.live cfg := by
  rw [Memory.live,Memory.live,Memory.taken,stored,removed]
  rfl

theorem live_stored {next : Memory} (stored : next.stored = x :: m.stored)
    (removed : next.removed = m.removed) (untaken : x.entry ∉ m.taken) :
    next.live cfg = cfg.keyClass x.key ::ₘ m.live cfg := by
  have same : next.taken = m.taken := by rw [Memory.taken,removed]; rfl
  simp [Memory.live,stored,same,untaken]

theorem filter_take {l : List Transfer} {taken : List Address}
    (distinct : (l.map Transfer.entry).Nodup) (member : x ∈ l) (untaken : x.entry ∉ taken) :
    (l.filter fun y => y.entry ∉ taken).Perm
      (x :: l.filter fun y => y.entry ∉ x.entry :: taken) := by
  induction l with
  | nil => cases member
  | cons y l ih =>
    obtain ⟨fresh,distinct⟩ := List.nodup_cons.mp distinct
    rcases List.mem_cons.mp member with rfl | old
    · have rest : (l.filter fun y => y.entry ∉ taken) =
          l.filter fun y => y.entry ∉ x.entry :: taken := by
        refine List.filter_congr fun y inside => ?_
        have away : y.entry ≠ x.entry := fun same => fresh (same ▸ List.mem_map_of_mem inside)
        simp [away]
      rw [List.filter_cons_of_pos (by simpa using untaken),List.filter_cons_of_neg (by simp),rest]
    · have away : y.entry ≠ x.entry := fun same => fresh (same ▸ List.mem_map_of_mem old)
      have shorter := ih distinct old
      by_cases gone : y.entry ∈ taken
      · simpa [List.filter_cons,gone] using shorter
      · simpa [List.filter_cons,gone,away] using
          (shorter.cons y).trans (List.Perm.swap x y _)

theorem live_taken {next : Memory} (stored : next.stored = m.stored)
    (removed : next.removed = y :: m.removed) (distinct : m.entries.Nodup)
    (member : x ∈ m.stored) (same : x.entry = y.entry) (untaken : y.entry ∉ m.taken) :
    m.live cfg = cfg.keyClass x.key ::ₘ next.live cfg := by
  have taken : next.taken = x.entry :: m.taken := by
    rw [Memory.taken,removed,List.map_cons,same]
    rfl
  have perm := (filter_take distinct member (same ▸ untaken)).map fun x => cfg.keyClass x.key
  rw [live_eq,live_eq,stored,taken,Multiset.cons_coe]
  exact Multiset.coe_eq_coe.mpr perm

theorem insert_outcome (cfg : Config) (tid : Nat) (m : Memory) (f : InsertFrame) :
    let out := advance cfg tid m (.insert f)
    (∃ g, out.2 = .insert g ∧ g.key = f.key ∧ Silent m out.1) ∨
    out.2 = .idle ∧ (∃ x : Transfer, x.key = f.key ∧
      out.1.returned = (tid,.insert f.key,.truth true) :: m.returned ∧
      out.1.stored = x :: m.stored ∧ out.1.removed = m.removed) ∨
    out.2 = .idle ∧ out.1.returned = (tid,.insert f.key,.truth false) :: m.returned ∧
      out.1.stored = m.stored ∧ out.1.removed = m.removed := by
  cases pc : f.pc with
  | allocate | shuffle =>
    simp only [advance,insert,pc]
    exact .inl ⟨f,rfl,rfl,.refl m⟩
  | probe i second foundEmpty =>
    simp only [advance,insert,pc]
    by_cases empty : getRealPointer (m.hashTable (f.bucket second) i) = 0
    · simp only [empty,if_true]
      exact .inl ⟨_,rfl,rfl,.refl m⟩
    · simp only [empty,if_false]
      exact .inl ⟨_,rfl,(nextProbe_frame f i second foundEmpty).1,.refl m⟩
  | store i second ptr1 =>
    simp only [advance,insert,pc]
    cases createPointer (getCounter ptr1) f.newEntry false with
    | none => exact .inl ⟨f,rfl,rfl,⟨rfl,rfl,rfl,rfl⟩⟩
    | some word =>
      by_cases found : m.hashTable (f.bucket second) i = ptr1
      · simp only [Memory.compareAndSwap,found,if_true]
        exact .inr (.inl ⟨trivial,⟨tid,f.key,f.newEntry,f.bucket second,i⟩,rfl,rfl,rfl,rfl⟩)
      · simp only [Memory.compareAndSwap,found,if_false]
        exact .inl ⟨_,rfl,(nextProbe_frame f i second true).1,.refl m⟩
  | kick rest frame =>
    have inner := relocate_silent cfg tid m frame
    simp only [advance,insert,pc]
    cases flow : relocate cfg tid m frame with | mk next result =>
    rw [flow] at inner
    cases result with
    | running after => exact .inl ⟨_,rfl,rfl,inner⟩
    | returned result =>
      cases result with
      | true => exact .inl ⟨_,rfl,rfl,inner⟩
      | false =>
        cases rest with
        | nil => exact .inr (.inr ⟨rfl,inner.respond _ _ _,inner.stored,inner.removed⟩)
        | cons kickSlot rest => exact .inl ⟨_,rfl,rfl,inner⟩

theorem remove_outcome (cfg : Config) (tid : Nat) (m : Memory) (f : RemoveFrame) :
    let out := advance cfg tid m (.remove f)
    (∃ g, out.2 = .remove g ∧ g.key = f.key ∧ Silent m out.1) ∨
    out.2 = .idle ∧ (∃ location, f.pc = .cas location
        (m.hashTable (f.hashVal location) (location % numItemsPerEntry)) ∧
      out.1.returned = (tid,.remove f.key,.truth true) :: m.returned ∧
      out.1.stored = m.stored ∧
      out.1.removed = ⟨tid,f.key,getRealPointer (m.hashTable (f.hashVal location)
        (location % numItemsPerEntry)),f.hashVal location,location % numItemsPerEntry⟩ ::
        m.removed) ∨
    out.2 = .idle ∧ out.1.returned = (tid,.remove f.key,.truth false) :: m.returned ∧
      out.1.stored = m.stored ∧ out.1.removed = m.removed := by
  cases pc : f.pc with
  | find frame =>
    have inner := find_silent cfg tid m frame
    simp only [advance,remove,pc]
    cases flow : find cfg tid m frame with | mk next result =>
    rw [flow] at inner
    cases result with
    | running after => exact .inl ⟨_,rfl,rfl,inner⟩
    | returned result =>
      by_cases missing : result.1 = numItemsPerEntry * 2
      · simp only [missing,if_true]
        exact .inr (.inr ⟨trivial,inner.respond _ _ _,inner.stored,inner.removed⟩)
      · simp only [missing,if_false]
        exact .inl ⟨_,rfl,rfl,inner⟩
  | cas location ptr1 =>
    simp only [advance,remove,pc]
    cases createPointer (getCounter ptr1) 0 false with
    | none => exact .inl ⟨f,rfl,rfl,⟨rfl,rfl,rfl,rfl⟩⟩
    | some word =>
      by_cases found : m.hashTable (f.hashVal location) (location % numItemsPerEntry) = ptr1
      · subst ptr1
        simp only [Memory.compareAndSwap,if_true]
        exact .inr (.inl ⟨trivial,location,rfl,rfl,rfl,rfl⟩)
      · simp only [Memory.compareAndSwap,found,if_false]
        exact .inl ⟨_,rfl,rfl,⟨rfl,rfl,rfl,rfl⟩⟩

/-- The search has read a word with its fingerprint, and answers with it next. -/
def FindFrame.Hits (m : Memory) (f : FindFrame) : Prop :=
  match f.pc with
  | .compareFirst ptr | .compareSecond _ ptr => f.fingerprint = m.str (getRealPointer ptr)
  | _ => False

instance (m : Memory) (f : FindFrame) : Decidable (f.Hits m) := by
  unfold FindFrame.Hits
  split <;> infer_instance

/-- A search that goes on to a hit has just read it. -/
theorem find_reads_hit (running : (find cfg tid m f).2 = .running after) (hits : after.Hits m) :
    ∃ b, (b = f.hash1 ∨ b = f.hash2) ∧ getRealPointer (m.hashTable b f.slot) ≠ 0 ∧
      f.fingerprint = m.str (getRealPointer (m.hashTable b f.slot)) := by
  cases pc : f.pc with
  | readFirst =>
    simp only [find,pc] at running
    split at running
    · cases running
      cases hits
    · rename_i present
      split at running
      · cases running
        cases hits
      · cases running
        exact ⟨f.hash1,.inl rfl,present,hits⟩
  | readSecond ts1 =>
    simp only [find,pc] at running
    split at running
    · cases running
      cases hits
    · rename_i present
      split at running
      · cases running
        cases hits
      · cases running
        exact ⟨f.hash2,.inr rfl,present,hits⟩
  | help frame =>
    simp only [find,pc] at running
    split at running <;> cases running <;> cases hits
  | recheckSecond ts1 ts2 ts1x =>
    simp only [find,pc,FindFrame.nextSlot] at running
    repeat' split at running
    all_goals cases running <;> cases hits
  | _ =>
    simp only [find,pc] at running
    repeat' split at running
    all_goals cases running <;> cases hits

variable (cfg tid) in
theorem find_hit_returns (hits : f.Hits m) : ∃ location ptr,
    (location = f.slot ∨ location = f.slot + numItemsPerEntry) ∧
      (find cfg tid m f).2 = .returned (location,ptr) := by
  unfold FindFrame.Hits at hits
  split at hits
  · rename_i ptr pc
    exact ⟨_,ptr,.inl rfl,by simp only [find,pc,if_pos hits]⟩
  · rename_i ts1 ptr pc
    exact ⟨_,ptr,.inr rfl,by simp only [find,pc,if_pos hits]⟩
  · contradiction

/-- Where a thread is with its call, as the bag sees it. -/
def Control.phase (cfg : Config) (m : Memory) : Control → Linearization.Phase (Bag.Op KeyClass) Bool
  | .idle => .idle
  | .insert f => .pending (.insert (cfg.keyClass f.key))
  | .find key f =>
    if f.Hits m then .effective (.find (cfg.keyClass key)) true
    else .pending (.find (cfg.keyClass key))
  | .remove f => .pending (.remove (cfg.keyClass f.key))

def System.phases (cfg : Config) (s : System) (tid : Nat) :
    Linearization.Phase (Bag.Op KeyClass) Bool :=
  (s.control tid).phase cfg s.memory

abbrev hastyBag : Linearization.Object (Bag.Op KeyClass) Bool (Multiset KeyClass) :=
  ⟨0,Bag.HastyStep⟩

theorem hits_step (accounted : Accounted cfg s) (moved : StepBy cfg tid s t)
    (site : s.control other = .find key f) : f.Hits t.memory ↔ f.Hits s.memory := by
  have sound := accounted.formed.sound
  have shape := accounted.formed.control other
  rw [site] at shape
  have same (b i : Nat) (ptr : TablePointer) (member : (⟨b,i,ptr⟩ : Cell) ∈ f.held)
      (present : getRealPointer ptr ≠ 0) :
      t.memory.str (getRealPointer ptr) = s.memory.str (getRealPointer ptr) := by
    refine str_step moved (sound.cells other ⟨b,i,ptr⟩ ?_ present)
    rw [site]
    exact member
  unfold FindFrame.Hits
  cases pc : f.pc with
  | compareFirst ptr =>
    simp only [Control.Formed,FindFrame.Compares,pc] at shape
    simp only [same f.hash1 f.slot ptr (by simp [FindFrame.held,pc]) shape.1]
  | compareSecond ts1 ptr =>
    simp only [Control.Formed,FindFrame.Compares,pc] at shape
    simp only [same f.hash2 f.slot ptr (by simp [FindFrame.held,pc]) shape.1]
  | _ => exact Iff.rfl

theorem phases_step (accounted : Accounted cfg s) (moved : StepBy cfg tid s t) :
    t.phases cfg = Function.update (s.phases cfg) tid ((t.control tid).phase cfg t.memory) := by
  funext other
  by_cases own : other = tid
  · subst other
    rw [Function.update_self]
    rfl
  · rw [Function.update_of_ne own,System.phases,System.phases,stepBy_other moved own]
    cases site : s.control other with
    | find key f => simp only [Control.phase,hits_step accounted moved site]
    | _ => rfl

section

variable {State : Type} {object : Linearization.Object (Bag.Op KeyClass) Bool State}
variable {state after : State} {history : List (Linearization.Event (Bag.Op KeyClass) Bool)}

theorem unseen_step (accounted : Accounted cfg s) (moved : StepBy cfg tid s t)
    (past : Linearization.Linearizes object history (s.phases cfg) state)
    (phase : (t.control tid).phase cfg t.memory = (s.control tid).phase cfg s.memory) :
    Linearization.Linearizes object history (t.phases cfg) state := by
  have same : t.phases cfg = s.phases cfg := by
    rw [phases_step accounted moved,phase]
    exact Function.update_eq_self tid _
  rwa [same]

theorem ending_step (accounted : Accounted cfg s) (moved : StepBy cfg tid s t)
    (past : Linearization.Linearizes object history (s.phases cfg) state)
    (pending : (s.control tid).phase cfg s.memory = .pending op)
    (accepted : object.accepts state op answer after) (ended : t.control tid = .idle) :
    Linearization.Linearizes object (.respond tid op answer :: history) (t.phases cfg) after := by
  rw [phases_step accounted moved,ended]
  exact past.serve pending accepted

/-- How a history goes on with a step inside a call: unchanged, or with its answer. -/
def Extends (cfg : Config) (object : Linearization.Object (Bag.Op KeyClass) Bool State)
    (tid : Nat) (s t : System) (after : State)
    (history : List (Linearization.Event (Bag.Op KeyClass) Bool)) : Prop :=
  t.memory.returned = s.memory.returned ∧
    Linearization.Linearizes object history (t.phases cfg) after ∨
  ∃ call response, t.memory.returned = (tid,call,response) :: s.memory.returned ∧
    Linearization.Linearizes object
      (.respond tid (call.op.map cfg.keyClass) response.success :: history) (t.phases cfg) after

end

theorem place_class (power : cfg.tableSize = 2 ^ e) {x : Transfer} (place : x.At cfg b i) :
    classAt cfg.tableSize b (cfg.md5Fingerprint x.key) = cfg.keyClass x.key :=
  class_at power x.key place.2

/-- A slot of one of the key's buckets with the key's fingerprint: its entry is live and has
the key's class. -/
theorem slot_live (power : cfg.tableSize = 2 ^ e) (single : Single cfg s)
    (present : getRealPointer (s.memory.hashTable b i) ≠ 0)
    (bucket : b = (FindFrame.enter cfg key).hash1 ∨ b = (FindFrame.enter cfg key).hash2)
    (string : cfg.md5Fingerprint key = s.memory.str (getRealPointer (s.memory.hashTable b i))) :
    ∃ x ∈ s.memory.stored, x.entry = getRealPointer (s.memory.hashTable b i) ∧
      x.entry ∉ s.memory.taken ∧ cfg.keyClass x.key = cfg.keyClass key := by
  have placed := reachable_placed power single.reachable
  obtain ⟨x,stored,entry,place⟩ := slot_stored placed present
  refine ⟨x,stored,entry.symm,fun taken => single.gone x.entry taken b i entry,?_⟩
  have fingerprint : cfg.md5Fingerprint key = cfg.md5Fingerprint x.key := by
    rw [string,entry,Memory.str,(placed.accounted.formed.sound.stored x stored).2]
    rfl
  rw [← place_class power place,← fingerprint]
  exact class_at power key bucket

theorem insert_extends (accounted : Accounted cfg s) (accounted' : Accounted cfg t)
    (known : ∀ entry ∈ s.memory.taken, entry ∈ s.memory.entries) (moved : StepBy cfg tid s t)
    (site : s.control tid = .insert f)
    (past : Linearization.Linearizes hastyBag history (s.phases cfg) (s.memory.live cfg)) :
    Extends cfg hastyBag tid s t (t.memory.live cfg) history := by
  have pending : (s.control tid).phase cfg s.memory = .pending (.insert (cfg.keyClass f.key)) := by
    rw [site]
    rfl
  have onward (g : InsertFrame) (key : g.key = f.key) (now : t.control tid = .insert g)
      (same : Silent s.memory t.memory) :
      Extends cfg hastyBag tid s t (t.memory.live cfg) history := by
    rw [live_same same.stored same.removed]
    refine .inl ⟨same.returned,unseen_step accounted moved past ?_⟩
    rw [pending,now,Control.phase,key]
  obtain ⟨-,⟨action,raw⟩,-⟩ := stepBy_cases moved
  obtain ⟨after,now⟩ : ∃ after, t.control tid = after := ⟨_,rfl⟩
  obtain ⟨next,memory⟩ : ∃ next, t.memory = next := ⟨_,rfl⟩
  rw [site,now,memory] at raw
  cases threadStep_move raw with
  | allocate frame address begins fresh =>
    exact onward { f with newEntry := address, pc := .probe 0 false false } rfl now
      (memory ▸ ⟨rfl,rfl,rfl,rfl⟩)
  | shuffle frame kickSlot rest kicks permuted =>
    exact onward (f.goto (.kick rest (.enter f.hash1 kickSlot))) rfl now (memory ▸ .refl _)
  | insert frame allocated shuffled =>
    rcases insert_outcome cfg tid s.memory f with ⟨g,goes,key,same⟩ |
      ⟨ended,x,key,returned,stored,removed⟩ | ⟨ended,returned,stored,removed⟩
    · exact onward g key (now.trans goes) (memory ▸ same)
    · rw [← memory] at returned stored removed
      refine .inr ⟨.insert f.key,.truth true,returned,?_⟩
      refine ending_step accounted moved past pending ?_ (now.trans ended)
      have distinct := accounted'.distinct
      rw [Memory.entries,stored] at distinct
      rw [live_stored stored removed fun taken =>
        (List.nodup_cons.mp distinct).1 (known x.entry taken),key]
      exact .stored
    · rw [← memory] at returned stored removed
      refine .inr ⟨.insert f.key,.truth false,returned,?_⟩
      refine ending_step accounted moved past pending ?_ (now.trans ended)
      rw [live_same stored removed]
      exact .refused

theorem remove_extends (power : cfg.tableSize = 2 ^ e) (single : Single cfg s)
    (moved : StepBy cfg tid s t) (site : s.control tid = .remove f)
    (past : Linearization.Linearizes hastyBag history (s.phases cfg) (s.memory.live cfg)) :
    Extends cfg hastyBag tid s t (t.memory.live cfg) history := by
  have accounted := reachable_accounted single.reachable
  have pending : (s.control tid).phase cfg s.memory = .pending (.remove (cfg.keyClass f.key)) := by
    rw [site]
    rfl
  obtain ⟨-,⟨action,raw⟩,-⟩ := stepBy_cases moved
  obtain ⟨after,now⟩ : ∃ after, t.control tid = after := ⟨_,rfl⟩
  obtain ⟨next,memory⟩ : ∃ next, t.memory = next := ⟨_,rfl⟩
  rw [site,now,memory] at raw
  cases threadStep_move raw with
  | remove frame =>
    rcases remove_outcome cfg tid s.memory f with ⟨g,goes,key,same⟩ |
      ⟨ended,location,pc,returned,stored,removed⟩ | ⟨ended,returned,stored,removed⟩
    · rw [← memory] at same
      rw [live_same same.stored same.removed]
      refine .inl ⟨same.returned,unseen_step accounted moved past ?_⟩
      rw [pending,now,goes,Control.phase,key]
    · rw [← memory] at returned stored removed
      refine .inr ⟨.remove f.key,.truth true,returned,?_⟩
      refine ending_step accounted moved past pending ?_ (now.trans ended)
      have shape := accounted.formed.control tid
      have keyed := accounted.formed.sound.keyed tid
      rw [site] at shape keyed
      obtain ⟨present,-,string⟩ := shape.2 location _ pc
      have bucket : f.hashVal location = (FindFrame.enter cfg f.key).hash1 ∨
          f.hashVal location = (FindFrame.enter cfg f.key).hash2 := by
        unfold RemoveFrame.hashVal
        split
        · exact .inl keyed.1
        · exact .inr keyed.2.1
      obtain ⟨x,member,entry,untaken,same⟩ :=
        slot_live power single present bucket string.symm
      rw [live_taken stored removed accounted.distinct member entry (entry ▸ untaken),same]
      exact .removed rfl
    · rw [← memory] at returned stored removed
      refine .inr ⟨.remove f.key,.truth false,returned,?_⟩
      refine ending_step accounted moved past pending ?_ (now.trans ended)
      rw [live_same stored removed]
      exact .missed

/-- A search leaves the object as it is: it takes effect at the read of a slot with its
key, or at an answer without one. -/
theorem search_extends {State : Type}
    {object : Linearization.Object (Bag.Op KeyClass) Bool State} {state : State}
    (accounted : Accounted cfg s) (moved : StepBy cfg tid s t) (site : s.control tid = .find key f)
    (found : ∀ b i, getRealPointer (s.memory.hashTable b i) ≠ 0 →
      (b = (FindFrame.enter cfg key).hash1 ∨ b = (FindFrame.enter cfg key).hash2) →
      cfg.md5Fingerprint key = s.memory.str (getRealPointer (s.memory.hashTable b i)) →
      i < numItemsPerEntry → object.accepts state (.find (cfg.keyClass key)) true state)
    (missed : ∀ ptr, (find cfg tid s.memory f).2 = .returned (2 * numItemsPerEntry,ptr) →
      object.accepts state (.find (cfg.keyClass key)) false state)
    (past : Linearization.Linearizes object history (s.phases cfg) state) :
    Extends cfg object tid s t state history := by
  have silent := find_silent cfg tid s.memory f
  have keyed := accounted.formed.sound.keyed tid
  rw [site] at keyed
  obtain ⟨fingerprint,first,second,inside⟩ := keyed
  rcases find_moves moved site with ⟨after,flow,now⟩ | ⟨next,location,ptr,flow,memory,now⟩
  · rw [flow] at silent
    have running : (find cfg tid s.memory f).2 = .running after := by rw [flow]
    have before : (s.control tid).phase cfg s.memory = .pending (.find (cfg.keyClass key)) := by
      rw [site,Control.phase,if_neg]
      intro hits
      obtain ⟨_,_,-,returned⟩ := find_hit_returns cfg tid hits
      rw [running] at returned
      cases returned
    have alike : after.Hits t.memory ↔ after.Hits s.memory := by
      have nested := find_nested cfg tid s.memory f
      rw [flow] at nested
      have heap : t.memory.heap = s.memory.heap := (nested_heap nested).1
      simp only [FindFrame.Hits,Memory.str,heap]
    by_cases hits : after.Hits s.memory
    · -- The read of a slot that has the key: the search takes effect.
      obtain ⟨b,bucket,present,string⟩ := find_reads_hit running hits
      have effect := past.effect before
        (found b f.slot present (by rwa [first,second] at bucket) (fingerprint ▸ string) inside)
      have later : (t.control tid).phase cfg t.memory =
          .effective (.find (cfg.keyClass key)) true := by
        rw [now,Control.phase,if_pos]
        exact alike.mpr hits
      refine .inl ⟨silent.returned,?_⟩
      rw [phases_step accounted moved,later]
      exact effect
    · refine .inl ⟨silent.returned,unseen_step accounted moved past ?_⟩
      rw [before,now,Control.phase,if_neg]
      exact fun there => hits (alike.mp there)
  · have returned : t.memory.returned = (tid,.find key,.location location) :: s.memory.returned := by
      rw [flow] at silent
      rw [memory]
      exact silent.respond _ _ _
    refine .inr ⟨.find key,.location location,returned,?_⟩
    have gives : (find cfg tid s.memory f).2 = .returned (location,ptr) := by rw [flow]
    have outcome : f.Hits s.memory ∧ location < 2 * numItemsPerEntry ∨
        ¬f.Hits s.memory ∧ location = 2 * numItemsPerEntry := by
      rcases find_result gives
        with ⟨rfl,ptr1,pc,rfl,string⟩ | ⟨rfl,ts1,ptr2,pc,rfl,string⟩ |
          ⟨rfl,ts1,ts2,ts1x,pc,-⟩
      · exact .inl ⟨by simpa only [FindFrame.Hits,pc] using string,by omega⟩
      · exact .inl ⟨by simpa only [FindFrame.Hits,pc] using string,by omega⟩
      · exact .inr ⟨by simp only [FindFrame.Hits,pc,not_false_eq_true],rfl⟩
    rcases outcome with ⟨hits,here⟩ | ⟨passed,rfl⟩
    · have phase : s.phases cfg tid = .effective (.find (cfg.keyClass key)) true := by
        rw [System.phases,site,Control.phase,if_pos hits]
      have answer : Response.success (.location location) = true := by
        simpa [Response.success] using here
      rw [answer,phases_step accounted moved,now]
      exact past.respond phase
    · have phase : (s.control tid).phase cfg s.memory = .pending (.find (cfg.keyClass key)) := by
        rw [site,Control.phase,if_neg passed]
      exact ending_step accounted moved past phase (missed ptr gives) now

theorem find_extends (power : cfg.tableSize = 2 ^ e) (single : Single cfg s)
    (moved : StepBy cfg tid s t) (site : s.control tid = .find key f)
    (past : Linearization.Linearizes hastyBag history (s.phases cfg) (s.memory.live cfg)) :
    Extends cfg hastyBag tid s t (t.memory.live cfg) history := by
  have silent := find_silent cfg tid s.memory f
  have same : t.memory.live cfg = s.memory.live cfg := by
    rcases find_moves moved site with ⟨after,flow,now⟩ | ⟨next,location,ptr,flow,memory,now⟩
    · rw [flow] at silent
      exact live_same silent.stored silent.removed
    · rw [flow] at silent
      rw [memory]
      exact live_same silent.stored silent.removed
  rw [same]
  refine search_extends (reachable_accounted single.reachable) moved site ?_
    (fun _ _ => .overlooked) past
  intro b i present bucket string _
  obtain ⟨x,member,-,untaken,same⟩ := slot_live power single present bucket string
  refine .found ?_
  rw [← same,live_eq,Multiset.mem_coe]
  exact List.mem_map_of_mem (List.mem_filter.mpr ⟨member,by simpa using untaken⟩)

theorem step_extends (power : cfg.tableSize = 2 ^ e) (single : Single cfg s)
    (single' : Single cfg t) (busy : s.control tid ≠ .idle) (moved : StepBy cfg tid s t)
    (past : Linearization.Linearizes hastyBag history (s.phases cfg) (s.memory.live cfg)) :
    Extends cfg hastyBag tid s t (t.memory.live cfg) history := by
  cases site : s.control tid with
  | idle => exact absurd site busy
  | insert f =>
    exact insert_extends (reachable_accounted single.reachable)
      (reachable_accounted single'.reachable) single.known moved site past
  | find key f => exact find_extends power single moved site past
  | remove f => exact remove_extends power single moved site past

/-- The removals take last copies only and line 415 takes nothing out. -/
def Guarded (cfg : Config) (tid : Nat) (s : System) : Prop :=
  ¬TakesCopy cfg tid s ∧ ¬ErasesDestination tid s

instance (cfg : Config) (tid : Nat) (s : System) : Decidable (Guarded cfg tid s) :=
  inferInstanceAs (Decidable (_ ∧ _))

/-- A call and its answer for the bag. -/
def classEvent (cfg : Config) :
    Linearization.Event Call Response → Linearization.Event (Bag.Op KeyClass) Bool :=
  .map (fun call => call.op.map cfg.keyClass) Response.success

section

variable {State : Type} {object : Linearization.Object (Bag.Op KeyClass) Bool State}
variable {state after : State} {history : List (Linearization.Event (Bag.Op KeyClass) Bool)}

theorem invoke_linearizes (accounted : Accounted cfg s)
    (moved : step cfg s tid (.invoke call) = some t)
    (past : Linearization.Linearizes object history (s.phases cfg) state) :
    Linearization.Linearizes object (classEvent cfg (.invoke tid call) :: history) (t.phases cfg)
      state := by
  obtain ⟨idle,-,now⟩ := step_invoke_idle moved
  have phase : s.phases cfg tid = .idle := by rw [System.phases,idle,Control.phase]
  have next : (t.control tid).phase cfg t.memory = .pending (call.op.map cfg.keyClass) := by
    rw [now]
    cases call with
    | insert key => rfl
    | find key => rfl
    | remove key => rfl
  rw [phases_step accounted ⟨_,moved⟩,next]
  exact past.invoke phase _

theorem inside_linearizes (goes : Extends cfg object tid s t after history)
    (silent : t.memory.returned = s.memory.returned) :
    Linearization.Linearizes object history (t.phases cfg) after := by
  rcases goes with ⟨-,later⟩ | ⟨_,_,returned,-⟩
  · exact later
  · exact absurd (silent.symm.trans returned) (List.cons_ne_self _ _).symm

theorem respond_linearizes (goes : Extends cfg object tid s t after history)
    (returned : t.memory.returned = (tid,call,response) :: s.memory.returned) :
    Linearization.Linearizes object (classEvent cfg (.respond tid call response) :: history)
      (t.phases cfg) after := by
  rcases goes with ⟨silent,-⟩ | ⟨call',response',answered,later⟩
  · exact absurd (silent.symm.trans returned) (List.cons_ne_self _ _).symm
  · obtain ⟨same,-⟩ := List.cons.inj (answered.symm.trans returned)
    cases same
    exact later

end

theorem respond_busy (moved : StepBy cfg tid s t)
    (returned : t.memory.returned = event :: s.memory.returned) : s.control tid ≠ .idle := by
  intro idle
  obtain ⟨action,stepped⟩ := moved
  obtain ⟨call,rfl⟩ := idle_invokes idle stepped
  obtain ⟨-,memory,-⟩ := step_invoke_idle stepped
  rw [memory] at returned
  cases call <;> exact (List.cons_ne_self _ _).symm returned

theorem recorded_linearizes (power : cfg.tableSize = 2 ^ e)
    (recorded : Recorded cfg (fun tid s => ¬TakesCopy cfg tid s) System.initial history s) :
    Linearization.Linearizes hastyBag (history.map (classEvent cfg)) (s.phases cfg)
      (s.memory.live cfg) := by
  have single {history s} (past : Recorded cfg (fun tid s => ¬TakesCopy cfg tid s)
      System.initial history s) : Single cfg s := run_single power past.run
  induction recorded with
  | start => exact .start
  | @invoke history tid call s t past allowed moved ih =>
    have same : t.memory.live cfg = s.memory.live cfg := by
      rw [(step_invoke_idle moved).2.1]
      cases call <;> exact live_same rfl rfl
    rw [same]
    exact invoke_linearizes (reachable_accounted (single past).reachable) moved ih
  | @inside history tid s t past allowed busy moved silent ih =>
    exact inside_linearizes (step_extends power (single past)
      (single (past.inside allowed busy moved silent)) busy moved ih) silent
  | @respond history tid call response s t past allowed moved returned ih =>
    exact respond_linearizes (step_extends power (single past)
      (single (past.respond allowed moved returned)) (respond_busy moved returned) moved ih) returned

/-- An entry that was stored is in the table until a removal takes it, and never after. -/
theorem live_inTable (power : cfg.tableSize = 2 ^ e)
    (run : Run cfg (Guarded cfg) System.initial s) (stored : x ∈ s.memory.stored) :
    x.entry ∉ s.memory.taken ↔ InTable cfg s.memory x.entry := by
  have single := run_single power (run.weaken fun _ _ guarded => guarded.1)
  constructor
  · intro untaken
    have spares := run.weaken fun _ _ guarded => guarded.2
    rcases (run_kept spares).held x stored with gone | ⟨b,i,holds,-⟩
    · exact absurd gone untaken
    · have present := ((reachable_formed run.reachable).sound.stored x stored).1
      obtain ⟨bucket,slot⟩ := holder_slot run.reachable (holds ▸ present)
      exact ⟨b,bucket,i,slot,holds⟩
  · rintro ⟨b,-,i,-,holds⟩ taken
    exact single.gone x.entry taken b i holds

/-- The classes of the stored entries that are in the table. -/
def Memory.inTable (cfg : Config) (m : Memory) : Multiset KeyClass :=
  ((m.stored.filter fun x => InTable cfg m x.entry).map fun x => cfg.keyClass x.key : List KeyClass)

theorem Recorded.weaken {strong weak : Nat → System → Prop}
    (implies : ∀ tid s, strong tid s → weak tid s) (recorded : Recorded cfg strong origin history s) :
    Recorded cfg weak origin history s := by
  induction recorded with
  | start => exact .start
  | invoke _ allowed moved ih => exact ih.invoke (implies _ _ allowed) moved
  | inside _ allowed busy moved silent ih => exact ih.inside (implies _ _ allowed) busy moved silent
  | respond _ allowed moved returned ih => exact ih.respond (implies _ _ allowed) moved returned

theorem live_table (power : cfg.tableSize = 2 ^ e)
    (run : Run cfg (Guarded cfg) System.initial s) : s.memory.live cfg = s.memory.inTable cfg := by
  rw [live_eq,Memory.inTable]
  congr 2
  refine List.filter_congr fun x stored => ?_
  rw [decide_eq_decide]
  exact live_inTable power run stored

theorem phases_idle (idle : s.control tid = .idle) : s.phases cfg tid = .idle := by
  rw [System.phases,idle,Control.phase]

/-- Any run in which removals take last copies only and line 415 takes nothing out is one of
a bag of classes, but for searches and removals that overlook what is there. The bag is in
the table in every state of the run. -/
theorem guarded_linearizable (power : cfg.tableSize = 2 ^ e)
    (recorded : Recorded cfg (Guarded cfg) System.initial history s) :
    ∃ phases, Linearization.Linearizes hastyBag (history.map (classEvent cfg)) phases
        (s.memory.inTable cfg) ∧
      ∀ tid, s.control tid = .idle → phases tid = .idle := by
  have linearizes :=
    recorded_linearizes power (recorded.weaken fun _ _ guarded => guarded.1)
  rw [live_table power recorded.run] at linearizes
  exact ⟨_,linearizes,fun _ idle => phases_idle idle⟩

/-- `a` is moved by the insertion of thread 0 and then removed by thread 1. -/
theorem cleared_linearizable : ∃ history phases,
    Recorded sampleConfig (Guarded sampleConfig) System.initial history
      (endState sampleConfig clearedSchedule) ∧
    Linearization.Linearizes hastyBag (history.map (classEvent sampleConfig)) phases
      ((endState sampleConfig clearedSchedule).memory.inTable sampleConfig) ∧
    ∀ tid, (endState sampleConfig clearedSchedule).control tid = .idle → phases tid = .idle := by
  have run : Run sampleConfig (Guarded sampleConfig) System.initial
      (endState sampleConfig clearedSchedule) := endState_run _ clearedSchedule (by decide +kernel)
  obtain ⟨history,recorded⟩ := run_recorded run
  obtain ⟨phases,linearizes,idle⟩ := guarded_linearizable (e := 1) rfl recorded
  exact ⟨history,phases,recorded,linearizes,idle⟩

end CuckooFilter.LockFree
