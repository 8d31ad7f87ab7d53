import CuckooFilter.LockFreeRest

/-! Phases without insertions. Nothing is marked and no counter moves, so a search reads
each pair of slots once; a slot it has passed can only be emptied behind it. Searches and
removals that overlap then answer as an exact bag would. -/
namespace CuckooFilter.LockFree

variable {cfg : Config} {origin s t : System} {m n : Memory} {f : FindFrame} {tid : Nat}

def Memory.Lacks (m : Memory) (string : Bytes) (b i : Nat) : Prop := m.fingerprint b i ≠ some string

/-- What a search has passed does not hold its fingerprint, and what it has read of the
counters is still there. -/
def FindFrame.Passed (m : Memory) (f : FindFrame) : Prop :=
  f.slot < numItemsPerEntry ∧
  (∀ i < f.slot, m.Lacks f.fingerprint f.hash1 i ∧ m.Lacks f.fingerprint f.hash2 i) ∧
  match f.pc with
  | .readFirst => True
  | .compareFirst ptr1 => getCounter ptr1 = getCounter (m.hashTable f.hash1 f.slot) ∧
      (f.fingerprint ≠ m.str (getRealPointer ptr1) → m.Lacks f.fingerprint f.hash1 f.slot)
  | .readSecond ts1 => ts1 = getCounter (m.hashTable f.hash1 f.slot) ∧
      m.Lacks f.fingerprint f.hash1 f.slot
  | .compareSecond ts1 ptr2 => ts1 = getCounter (m.hashTable f.hash1 f.slot) ∧
      m.Lacks f.fingerprint f.hash1 f.slot ∧
      (f.fingerprint ≠ m.str (getRealPointer ptr2) → m.Lacks f.fingerprint f.hash2 f.slot)
  | .recheckFirst ts1 _ => ts1 = getCounter (m.hashTable f.hash1 f.slot) ∧
      m.Lacks f.fingerprint f.hash1 f.slot ∧ m.Lacks f.fingerprint f.hash2 f.slot
  | .recheckSecond ts1 _ ts1x => ts1x = ts1 ∧
      m.Lacks f.fingerprint f.hash1 f.slot ∧ m.Lacks f.fingerprint f.hash2 f.slot
  | .help _ => False

/-- Slots are emptied, and nothing else happens to the table. -/
structure Memory.Drains (m n : Memory) : Prop where
  heap : n.heap = m.heap
  unmarked : ∀ b i, getMarked (n.hashTable b i) = false
  counters : ∀ b i, getCounter (n.hashTable b i) = getCounter (m.hashTable b i)
  left : ∀ b i string, n.fingerprint b i = some string → m.fingerprint b i = some string

theorem Memory.Drains.str (drains : m.Drains n) : n.str = m.str := by
  funext entry
  simp only [Memory.str,drains.heap]

theorem Alike.drains (same : Alike m n) (unmarked : ∀ b i, getMarked (m.hashTable b i) = false) : m.Drains n := by
  refine ⟨same.heap,fun b i => by rw [same.table,unmarked],fun b i => by rw [same.table],fun b i string => ?_⟩
  rw [fingerprint_alike same]
  exact id

theorem Memory.Drains.trans {l : Memory} (first : l.Drains m) (second : m.Drains n) :
    l.Drains n := by
  refine ⟨second.heap.trans first.heap,second.unmarked,fun b i => ?_,fun b i string there => ?_⟩
  · exact (second.counters b i).trans (first.counters b i)
  · exact first.left b i string (second.left b i string there)

theorem FindFrame.Passed.drains (passed : f.Passed m) (drains : m.Drains n) : f.Passed n := by
  have lacks {b i : Nat} {string : Bytes} (away : m.Lacks string b i) : n.Lacks string b i :=
    fun there => away (drains.left b i string there)
  obtain ⟨inside,behind,here⟩ := passed
  refine ⟨inside,fun i earlier => ⟨lacks (behind i earlier).1,lacks (behind i earlier).2⟩,?_⟩
  cases pc : f.pc with
  | readFirst => trivial
  | compareFirst ptr1 =>
    simp only [pc,drains.counters,drains.str] at here ⊢
    exact ⟨here.1,fun other => lacks (here.2 other)⟩
  | readSecond ts1 =>
    simp only [pc,drains.counters] at here ⊢
    exact ⟨here.1,lacks here.2⟩
  | compareSecond ts1 ptr2 =>
    simp only [pc,drains.counters,drains.str] at here ⊢
    exact ⟨here.1,lacks here.2.1,fun other => lacks (here.2.2 other)⟩
  | recheckFirst ts1 ts2 =>
    simp only [pc,drains.counters] at here ⊢
    exact ⟨here.1,lacks here.2.1,lacks here.2.2⟩
  | recheckSecond ts1 ts2 ts1x =>
    simp only [pc] at here ⊢
    exact ⟨here.1,lacks here.2.1,lacks here.2.2⟩
  | help frame => simp only [pc] at here

theorem lacks_empty (empty : getRealPointer (m.hashTable b i) = 0) (string : Bytes) :
    m.Lacks string b i := by
  rw [Memory.Lacks,fingerprint_none.mpr empty]
  simp

theorem lacks_other {string : Bytes}
    (other : string ≠ m.str (getRealPointer (m.hashTable b i))) : m.Lacks string b i :=
  fun here => other (fingerprint_some.mp here).2

theorem find_passes (unmarked : ∀ b i, getMarked (m.hashTable b i) = false) (passed : f.Passed m)
    (running : (find cfg tid m f).2 = .running after) : after.Passed m := by
  obtain ⟨inside,behind,here⟩ := passed
  cases pc : f.pc with
  | readFirst =>
    simp only [find,pc,unmarked f.hash1 f.slot,Bool.false_eq_true,if_false] at running
    split at running
    · rename_i empty
      cases running
      exact ⟨inside,behind,rfl,lacks_empty empty _⟩
    · cases running
      exact ⟨inside,behind,rfl,lacks_other⟩
  | compareFirst ptr1 =>
    simp only [pc] at here
    simp only [find,pc] at running
    split at running
    · contradiction
    · rename_i other
      cases running
      exact ⟨inside,behind,here.1,here.2 other⟩
  | readSecond ts1 =>
    simp only [pc] at here
    simp only [find,pc,unmarked f.hash2 f.slot,Bool.false_eq_true,if_false] at running
    split at running
    · rename_i empty
      cases running
      exact ⟨inside,behind,here.1,here.2,lacks_empty empty _⟩
    · cases running
      exact ⟨inside,behind,here.1,here.2,lacks_other⟩
  | compareSecond ts1 ptr2 =>
    simp only [pc] at here
    simp only [find,pc] at running
    split at running
    · contradiction
    · rename_i other
      cases running
      exact ⟨inside,behind,here.1,here.2.1,here.2.2 other⟩
  | recheckFirst ts1 ts2 =>
    simp only [pc] at here
    simp only [find,pc] at running
    cases running
    exact ⟨inside,behind,here.1.symm,here.2⟩
  | recheckSecond ts1 ts2 ts1x =>
    simp only [pc] at here
    obtain ⟨rfl,first,second⟩ := here
    simp only [find,pc,checkCounter,sub_self,FindFrame.nextSlot] at running
    simp only [ge_iff_le,Int.reduceLE,decide_false,Bool.false_and,Bool.false_eq_true,
      if_false] at running
    split at running
    · rename_i more
      cases running
      refine ⟨more,fun i earlier => ?_,trivial⟩
      rcases Nat.lt_succ_iff_lt_or_eq.mp earlier with before | rfl
      · exact behind i before
      · exact ⟨first,second⟩
    · contradiction
  | help frame => simp only [pc] at here

theorem find_gives_up (passed : f.Passed m)
    (returned : (find cfg tid m f).2 = .returned (2 * numItemsPerEntry,ptr)) :
    ∀ i < numItemsPerEntry,
      m.Lacks f.fingerprint f.hash1 i ∧ m.Lacks f.fingerprint f.hash2 i := by
  obtain ⟨inside,behind,here⟩ := passed
  rcases find_result returned with ⟨location,-⟩ | ⟨location,-⟩ | ⟨-,ts1,ts2,ts1x,pc,last,-⟩
  · omega
  · omega
  · simp only [pc] at here
    intro i slot
    by_cases earlier : i < f.slot
    · exact behind i earlier
    · obtain rfl : i = f.slot := by omega
      exact here.2

theorem FindFrame.Passed.outside (passed : f.Passed m) : f.help? = none := by
  unfold FindFrame.help?
  split
  · rename_i pc
    have here := passed.2.2
    simp only [pc] at here
  · rfl

/-- No read of such a search changes the table or the heap. -/
theorem find_alike (passed : f.Passed m) (cfg : Config) (tid : Nat) :
    Alike m (find cfg tid m f).1 := by
  have quiet := nested_quiet (find_nested cfg tid m f) passed.outside
  exact ⟨quiet.table,quiet.heap⟩

/-- All slots that a search for the key looks at lack its fingerprint: the bag has not got
its class. -/
theorem lacks_class (power : cfg.tableSize = 2 ^ e) (key : Bytes)
    (all : ∀ i < numItemsPerEntry,
      m.Lacks (cfg.md5Fingerprint key) (FindFrame.enter cfg key).hash1 i ∧
        m.Lacks (cfg.md5Fingerprint key) (FindFrame.enter cfg key).hash2 i) :
    cfg.keyClass key ∉ m.bag cfg := by
  intro member
  obtain ⟨i,slot,here | there⟩ := (mem_classes power (Nat.mod_lt _ cfg.positive)).mp member
  · exact (all i slot).1 here
  · exact (all i slot).2 there

/-- The thread is in no insertion, and its search has passed what it has read. -/
def Control.Looks (m : Memory) : Control → Prop
  | .idle => True
  | .insert _ => False
  | .find _ f => f.Passed m
  | .remove f => ∀ g, f.pc = .find g → g.Passed m

theorem Control.Looks.outside {control : Control} (looks : control.Looks m) :
    control.help? = none := by
  cases control with
  | idle => rfl
  | insert f => exact looks.elim
  | find key f => exact FindFrame.Passed.outside looks
  | remove f =>
    cases pc : f.pc with
    | cas location ptr1 => simp only [Control.help?,RemoveFrame.find?,pc,Option.bind_none]
    | find g =>
      simp only [Control.help?,RemoveFrame.find?,pc,Option.bind_some]
      exact (looks g pc).outside

/-- A state of a phase without insertions. -/
structure Looking (s : System) : Prop where
  unmarked : ∀ b i, getMarked (s.memory.hashTable b i) = false
  threads : ∀ tid, (s.control tid).Looks s.memory

theorem enter_passed (cfg : Config) (m : Memory) (key : Bytes) : (FindFrame.enter cfg key).Passed m :=
  ⟨show 0 < numItemsPerEntry by decide,fun i earlier => absurd earlier (Nat.not_lt_zero i),trivial⟩

theorem Control.Looks.drains {control : Control} (looks : control.Looks m) (drains : m.Drains n) :
    control.Looks n := by
  cases control with
  | idle => trivial
  | insert f => exact looks
  | find key f => exact FindFrame.Passed.drains looks drains
  | remove f => exact fun g pc => (looks g pc).drains drains

theorem drains_take (unmarked : ∀ b i, getMarked (m.hashTable b i) = false) (b i : Nat)
    (created : createPointer (getCounter (m.hashTable b i)) 0 false = some word) :
    m.Drains (m.write b i word) := by
  refine ⟨rfl,fun b' i' => ?_,fun b' i' => ?_,fun b' i' string there => ?_⟩
  all_goals by_cases here : b' = b ∧ i' = i
  · rw [here.1,here.2,write_here,createPointer_marked created null_fits]
  · rw [write_there m word here,unmarked]
  · rw [here.1,here.2,write_here,createPointer_counter created null_fits]
  · rw [write_there m word here]
  · rw [here.1,here.2,fingerprint_none.mpr] at there
    · contradiction
    · rw [write_here,createPointer_real created null_fits]
  · rwa [fingerprint_write m word here] at there

/-- What a step of a removal comes to in such a phase: it goes on, it takes its word out of
the slot, or it has passed all slots of its key. -/
inductive Removing (cfg : Config) (tid : Nat) (m : Memory) (f : RemoveFrame) (next : Memory) :
    Control → Prop where
  | onward (g : RemoveFrame) (key : g.key = f.key) (silent : Silent m next) (same : Alike m next)
      (looks : (Control.remove g).Looks m) : Removing cfg tid m f next (.remove g)
  | taken (location : Nat)
      (pc : f.pc = .cas location
        (m.hashTable (f.hashVal location) (location % numItemsPerEntry)))
      (created : createPointer (getCounter (m.hashTable (f.hashVal location)
        (location % numItemsPerEntry))) 0 false = some word)
      (returned : next.returned = (tid,.remove f.key,.truth true) :: m.returned)
      (same : Alike (m.write (f.hashVal location) (location % numItemsPerEntry) word) next) :
      Removing cfg tid m f next .idle
  | missed (g : FindFrame) (pc : f.pc = .find g)
      (returned : next.returned = (tid,.remove f.key,.truth false) :: m.returned)
      (same : Alike m next) (all : ∀ i < numItemsPerEntry,
        m.Lacks g.fingerprint g.hash1 i ∧ m.Lacks g.fingerprint g.hash2 i) :
      Removing cfg tid m f next .idle

theorem remove_removing (cfg : Config) (tid : Nat) {f : RemoveFrame} (unmarked : ∀ b i, getMarked (m.hashTable b i) = false)
    (looks : (Control.remove f).Looks m) :
    Removing cfg tid m f (advance cfg tid m (.remove f)).1 (advance cfg tid m (.remove f)).2 := by
  cases pc : f.pc with
  | find g =>
    have passed : g.Passed m := looks g pc
    have silent := find_silent cfg tid m g
    have same := find_alike passed cfg tid
    simp only [advance,remove,pc]
    cases flow : find cfg tid m g with | mk next result =>
    rw [flow] at silent same
    cases result with
    | running after =>
      refine .onward _ rfl silent same fun g' now => ?_
      cases now
      exact find_passes unmarked passed (by rw [flow])
    | returned result =>
      by_cases missing : result.1 = numItemsPerEntry * 2
      · simp only [missing,if_true]
        refine .missed g pc (silent.respond _ _ _) ⟨same.table,same.heap⟩ ?_
        refine find_gives_up passed
          (show (find cfg tid m g).2 = .returned (2 * numItemsPerEntry,result.2) from ?_)
        rw [flow,show 2 * numItemsPerEntry = result.1 by omega]
      · simp only [missing,if_false]
        exact .onward _ rfl silent same fun g' now => by cases now
  | cas location ptr1 =>
    simp only [advance,remove,pc]
    cases created : createPointer (getCounter ptr1) 0 false with
    | none => exact .onward f rfl ⟨rfl,rfl,rfl,rfl⟩ ⟨rfl,rfl⟩ looks
    | some word =>
      by_cases found : m.hashTable (f.hashVal location) (location % numItemsPerEntry) = ptr1
      · subst ptr1
        simp only [Memory.compareAndSwap,if_true]
        exact .taken location pc created rfl ⟨rfl,rfl⟩
      · simp only [Memory.compareAndSwap,found,if_false]
        refine .onward _ rfl ⟨rfl,rfl,rfl,rfl⟩ ⟨rfl,rfl⟩ fun g' now => ?_
        cases now
        exact enter_passed cfg m f.key

/-- A step that begins no insertion stays in the phase and only empties slots. -/
theorem looking_step (looking : Looking s) (moved : StepBy cfg tid s t)
    (calls : s.control tid = .idle → ∀ f, t.control tid ≠ .insert f) :
    s.memory.Drains t.memory ∧ Looking t := by
  have own : s.memory.Drains t.memory ∧ (t.control tid).Looks t.memory := by
    have looks := looking.threads tid
    obtain ⟨-,⟨action,raw⟩,-⟩ := stepBy_cases moved
    generalize s.control tid = before at looks calls raw
    generalize t.control tid = after at calls raw ⊢
    generalize t.memory = next at raw ⊢
    cases threadStep_move raw with
    | invoke call =>
      have drains (same : Alike s.memory (s.memory.clearHazard tid)) :
          s.memory.Drains (s.memory.clearHazard tid) := same.drains looking.unmarked
      cases call with
      | insert key => exact absurd rfl (calls rfl _)
      | find key => exact ⟨drains ⟨rfl,rfl⟩,enter_passed cfg _ key⟩
      | remove key =>
        refine ⟨drains ⟨rfl,rfl⟩,fun g pc => ?_⟩
        cases pc
        exact enter_passed cfg _ key
    | allocate | shuffle | insert => exact looks.elim
    | find key f =>
      have same := find_alike looks cfg tid
      simp only [advance]
      cases flow : find cfg tid s.memory f with | mk next result =>
      rw [flow] at same
      cases result with
      | running after =>
        have passed : after.Passed s.memory := find_passes looking.unmarked looks (by rw [flow])
        have drains := same.drains looking.unmarked
        exact ⟨drains,passed.drains drains⟩
      | returned result =>
        have same : Alike s.memory (next.respond tid (.find key) (.location result.1)) :=
          ⟨same.table,same.heap⟩
        exact ⟨same.drains looking.unmarked,trivial⟩
    | remove f =>
      have removing := remove_removing cfg tid looking.unmarked looks
      generalize (advance cfg tid s.memory (.remove f)).2 = after at removing ⊢
      cases removing with
      | onward g key silent same looks =>
        have drains := same.drains looking.unmarked
        exact ⟨drains,Control.Looks.drains looks drains⟩
      | taken location pc created returned same =>
        have take := drains_take looking.unmarked _ _ created
        have rest := same.drains take.unmarked
        exact ⟨take.trans rest,trivial⟩
      | missed g pc returned same all => exact ⟨same.drains looking.unmarked,trivial⟩
  refine ⟨own.1,own.1.unmarked,fun other => ?_⟩
  by_cases mine : other = tid
  · exact mine ▸ own.2
  · rw [stepBy_other moved mine]
    exact (looking.threads other).drains own.1

/-- The bag of the table as an object whose answers are exact. -/
abbrev exactBag (initial : Multiset KeyClass) :
    Linearization.Object (Bag.Op KeyClass) Bool (Multiset KeyClass) :=
  ⟨initial,Bag.Step⟩

variable {initial : Multiset KeyClass}
variable {history : List (Linearization.Event (Bag.Op KeyClass) Bool)}

theorem bag_find_extends (power : cfg.tableSize = 2 ^ e) (reachable : Reachable cfg s)
    (looking : Looking s) (moved : StepBy cfg tid s t) (site : s.control tid = .find key f)
    (past : Linearization.Linearizes (exactBag initial) history (s.phases cfg) (s.memory.bag cfg)) :
    Extends cfg (exactBag initial) tid s t (t.memory.bag cfg) history := by
  have accounted := reachable_accounted reachable
  have passed := looking.threads tid
  have keyed := accounted.formed.sound.keyed tid
  rw [site] at passed keyed
  obtain ⟨fingerprint,first,second,-⟩ := keyed
  have same : t.memory.bag cfg = s.memory.bag cfg := by
    have alike := find_alike passed cfg tid
    rcases find_moves moved site with ⟨after,flow,-⟩ | ⟨next,location,ptr,flow,memory,-⟩
    · rw [flow] at alike
      exact bag_alike alike
    · rw [flow] at alike
      rw [memory]
      exact bag_alike ⟨alike.table,alike.heap⟩
  rw [same]
  refine search_extends accounted moved site ?_ ?_ past
  · intro b i present bucket string slot
    have here : s.memory.fingerprint b i = some (cfg.md5Fingerprint key) :=
      fingerprint_some.mpr ⟨present,string⟩
    have there : cfg.keyClass key ∈ s.memory.bag cfg := by
      refine (mem_classes power (Nat.mod_lt _ cfg.positive)).mpr ⟨i,slot,?_⟩
      rcases bucket with home | away
      · rw [home] at here
        exact .inl here
      · rw [away] at here
        exact .inr here
    rw [← decide_eq_true there]
    exact .found
  · intro ptr returned
    have absent := find_gives_up passed returned
    rw [fingerprint,first,second] at absent
    rw [← decide_eq_false (lacks_class power key absent)]
    exact .found

theorem bag_remove_extends (power : cfg.tableSize = 2 ^ e) (reachable : Reachable cfg s)
    (looking : Looking s) {f : RemoveFrame} (moved : StepBy cfg tid s t)
    (site : s.control tid = .remove f)
    (past : Linearization.Linearizes (exactBag initial) history (s.phases cfg) (s.memory.bag cfg)) :
    Extends cfg (exactBag initial) tid s t (t.memory.bag cfg) history := by
  have accounted := reachable_accounted reachable
  have looks := looking.threads tid
  have keyed := accounted.formed.sound.keyed tid
  have shape := accounted.formed.control tid
  have pending : (s.control tid).phase cfg s.memory = .pending (.remove (cfg.keyClass f.key)) := by
    rw [site]
    rfl
  rw [site] at looks keyed shape
  obtain ⟨first,second,searches⟩ := keyed
  have removing : Removing cfg tid s.memory f t.memory (t.control tid) := by
    obtain ⟨-,⟨action,raw⟩,-⟩ := stepBy_cases moved
    rw [site] at raw
    generalize t.control tid = after at raw ⊢
    generalize t.memory = next at raw ⊢
    cases threadStep_move raw with
    | remove => exact remove_removing cfg tid looking.unmarked looks
  generalize now : t.control tid = after at removing
  cases removing with
  | onward g key silent same looks' =>
    rw [bag_alike same]
    refine .inl ⟨silent.returned,unseen_step accounted moved past ?_⟩
    rw [pending,now,Control.phase,key]
  | taken location pc created returned same =>
    refine .inr ⟨.remove f.key,.truth true,returned,?_⟩
    refine ending_step accounted moved past pending ?_ now
    obtain ⟨present,-,string⟩ := shape.2 location _ pc
    have bucket : f.hashVal location = (FindFrame.enter cfg f.key).hash1 ∨
        f.hashVal location = (FindFrame.enter cfg f.key).hash2 := by
      unfold RemoveFrame.hashVal
      split
      · exact .inl first
      · exact .inr second
    have whole := take_bag (holder_slot reachable present) present
      (createPointer_real created null_fits)
    rw [string,class_at power f.key bucket,← bag_alike same] at whole
    have rest : t.memory.bag cfg = (s.memory.bag cfg).erase (cfg.keyClass f.key) := by
      rw [whole,Multiset.erase_cons_head]
    rw [rest]
    exact .removed (whole ▸ Multiset.mem_cons_self _ _)
  | missed g pc returned same all =>
    refine .inr ⟨.remove f.key,.truth false,returned,?_⟩
    refine ending_step accounted moved past pending ?_ now
    obtain ⟨fingerprint,first,second,-⟩ := searches g (by rw [RemoveFrame.find?,pc])
    rw [fingerprint,first,second] at all
    rw [bag_alike same]
    exact .missing (lacks_class power f.key all)

/-- No operation is in progress and no slot is marked. -/
def System.Resting (s : System) : Prop :=
  (∀ tid, s.control tid = .idle) ∧ ∀ b i, getMarked (s.memory.hashTable b i) = false

def Insertless (history : List (Linearization.Event Call Response)) : Prop :=
  ∀ tid key, .invoke tid (.insert key) ∉ history

theorem Insertless.before {event : Linearization.Event Call Response}
    {history : List (Linearization.Event Call Response)} (whole : Insertless (event :: history)) :
    Insertless history :=
  fun tid key member => whole tid key (List.mem_cons_of_mem event member)

theorem recorded_looking (resting : origin.Resting) (start : Reachable cfg origin)
    {history : List (Linearization.Event Call Response)}
    (recorded : Recorded cfg (fun _ _ => True) origin history s) (insertless : Insertless history) :
    Reachable cfg s ∧ Looking s := by
  induction recorded with
  | start => exact ⟨start,resting.2,fun tid => by rw [resting.1 tid]; trivial⟩
  | @invoke history tid call s t past allowed moved ih =>
    obtain ⟨reachable,looking⟩ := ih insertless.before
    refine ⟨reachable.step ⟨_,moved⟩,(looking_step looking ⟨_,moved⟩ fun _ f now => ?_).2⟩
    rw [(step_invoke_idle moved).2.2] at now
    cases call with
    | insert key => exact insertless tid key List.mem_cons_self
    | find key => cases now
    | remove key => cases now
  | inside past allowed busy moved silent ih =>
    obtain ⟨reachable,looking⟩ := ih insertless
    exact ⟨reachable.step moved,(looking_step looking moved fun idle => absurd idle busy).2⟩
  | respond past allowed moved returned ih =>
    obtain ⟨reachable,looking⟩ := ih insertless.before
    exact ⟨reachable.step moved,(looking_step looking moved fun idle =>
      absurd idle (respond_busy moved returned)).2⟩

theorem look_extends (power : cfg.tableSize = 2 ^ e) (reachable : Reachable cfg s)
    (looking : Looking s) (busy : s.control tid ≠ .idle) (moved : StepBy cfg tid s t)
    {history : List (Linearization.Event (Bag.Op KeyClass) Bool)}
    (past : Linearization.Linearizes (exactBag initial) history (s.phases cfg) (s.memory.bag cfg)) :
    Extends cfg (exactBag initial) tid s t (t.memory.bag cfg) history := by
  cases site : s.control tid with
  | idle => exact absurd site busy
  | insert f =>
    have looks := looking.threads tid
    rw [site] at looks
    exact looks.elim
  | find key f => exact bag_find_extends power reachable looking moved site past
  | remove f => exact bag_remove_extends power reachable looking moved site past

theorem recorded_lookups (power : cfg.tableSize = 2 ^ e) (start : Reachable cfg origin)
    (resting : origin.Resting) {history : List (Linearization.Event Call Response)}
    (recorded : Recorded cfg (fun _ _ => True) origin history s) (insertless : Insertless history) :
    Linearization.Linearizes (exactBag (origin.memory.bag cfg)) (history.map (classEvent cfg))
      (s.phases cfg) (s.memory.bag cfg) := by
  induction recorded with
  | start =>
    have idle : origin.phases cfg = fun _ => .idle := by
      funext tid
      rw [System.phases,resting.1 tid]
      rfl
    rw [idle]
    exact .start
  | @invoke history tid call s t past allowed moved ih =>
    obtain ⟨reachable,-⟩ := recorded_looking resting start past insertless.before
    have same : t.memory.bag cfg = s.memory.bag cfg := by
      rw [(step_invoke_idle moved).2.1]
      cases call <;> exact bag_alike ⟨rfl,rfl⟩
    rw [same]
    exact invoke_linearizes (reachable_accounted reachable) moved (ih insertless.before)
  | @inside history tid s t past allowed busy moved silent ih =>
    obtain ⟨reachable,looking⟩ := recorded_looking resting start past insertless
    exact inside_linearizes (look_extends power reachable looking busy moved (ih insertless)) silent
  | @respond history tid call response s t past allowed moved returned ih =>
    obtain ⟨reachable,looking⟩ := recorded_looking resting start past insertless.before
    exact respond_linearizes (look_extends power reachable looking (respond_busy moved returned)
      moved (ih insertless.before)) returned

/-- From any reachable state at rest, as long as no insertion is called, searches and
removals that overlap answer as the bag of the classes in the table would: none of them
overlooks what is there. No entry is moved meanwhile. -/
theorem lookups_linearizable (power : cfg.tableSize = 2 ^ e) (start : Reachable cfg origin)
    (resting : origin.Resting) {history : List (Linearization.Event Call Response)}
    (recorded : Recorded cfg (fun _ _ => True) origin history s) (insertless : Insertless history) :
    Linearization.Linearizes (exactBag (origin.memory.bag cfg)) (history.map (classEvent cfg))
        (s.phases cfg) (s.memory.bag cfg) ∧
      ∀ b i, getMarked (s.memory.hashTable b i) = false :=
  ⟨recorded_lookups power start resting recorded insertless,
    (recorded_looking resting start recorded insertless).2.unmarked⟩

/-- Thread 0 searches for `c` while thread 1 removes one of the four in the table. -/
def lookSchedule : List (Nat × Action) :=
  [(0,.invoke (.find keyC)),(1,.invoke (.remove keyC)),(0,.run),(1,.run),(0,.run),(1,.run),(1,.run)]

def lookHistory : List (Linearization.Event Call Response) :=
  [.respond 1 (.remove keyC) (.truth true),.respond 0 (.find keyC) (.location 0),
    .invoke 1 (.remove keyC),.invoke 0 (.find keyC)]

theorem looked_recorded : Recorded sampleConfig (fun _ _ => True)
    (endState sampleConfig restedSchedule) lookHistory
    (endState sampleConfig (restedSchedule ++ lookSchedule)) :=
  endState_recorded restedSchedule lookSchedule (by decide +kernel) (by decide +kernel)

theorem rested_resting : (endState sampleConfig restedSchedule).Resting :=
  ⟨rested_idle,rest_unmarked (rested_regular.weaken fun _ _ regular => regular.2) rested_idle⟩

theorem looked_insertless : Insertless lookHistory := by
  intro tid key
  simp [lookHistory]

theorem looked_linearizable : Linearization.Linearizes
      (exactBag ((endState sampleConfig restedSchedule).memory.bag sampleConfig))
      (lookHistory.map (classEvent sampleConfig))
      ((endState sampleConfig (restedSchedule ++ lookSchedule)).phases sampleConfig)
      ((endState sampleConfig (restedSchedule ++ lookSchedule)).memory.bag sampleConfig) ∧
    ∀ b i, getMarked
      ((endState sampleConfig (restedSchedule ++ lookSchedule)).memory.hashTable b i) = false :=
  lookups_linearizable (e := 1) rfl (endState_reachable _ _) rested_resting looked_recorded
    looked_insertless

end CuckooFilter.LockFree
