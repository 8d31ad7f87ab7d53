import CuckooFilter.LockFreeCells
import CuckooFilter.Transition

/-! Runs of the machine, and the invariant behind every later one: addresses in
slots and in threads are allocated, and an entry that insertion has not stored
yet is known to its own thread only. -/
namespace CuckooFilter.LockFree

/-- Thread `tid` takes one step. -/
def StepBy (cfg : Config) (tid : Nat) (s t : System) : Prop :=
  ∃ action, step cfg s tid action = some t

/-- A run in which every step meets a condition on the state before it. -/
def Run (cfg : Config) (condition : Nat → System → Prop) : System → System → Prop :=
  Relation.ReflTransGen fun s t => ∃ tid, condition tid s ∧ StepBy cfg tid s t

/-- Any interleaving from the empty filter. -/
def Reachable (cfg : Config) (s : System) : Prop :=
  Run cfg (fun _ _ => True) System.initial s

theorem Run.weaken {strong weak : Nat → System → Prop}
    (implies : ∀ tid s, strong tid s → weak tid s) (run : Run cfg strong s t) :
    Run cfg weak s t := by
  induction run with
  | refl => exact .refl
  | tail _ last ih =>
    obtain ⟨tid,meets,moved⟩ := last
    exact .tail ih ⟨tid,implies tid _ meets,moved⟩

theorem Run.reachable {condition : Nat → System → Prop}
    (run : Run cfg condition System.initial s) : Reachable cfg s :=
  run.weaken fun _ _ _ => trivial

theorem Reachable.step (reachable : Reachable cfg s) (moved : StepBy cfg tid s t) :
    Reachable cfg t :=
  .tail reachable ⟨tid,trivial,moved⟩

theorem execute_run (schedule : List (Nat × Action)) (s t : System)
    (executed : execute cfg schedule s = some t) : Run cfg (fun _ _ => True) s t := by
  induction schedule generalizing s with
  | nil => cases executed; exact .refl
  | cons head rest ih =>
    obtain ⟨middle,moved,later⟩ := Option.bind_eq_some_iff.mp executed
    exact .head ⟨head.1,trivial,head.2,moved⟩ (ih _ later)

/-- Where a schedule ends when every step of it is possible. -/
def endState (cfg : Config) (schedule : List (Nat × Action)) : System :=
  (execute cfg schedule System.initial).getD System.initial

theorem endState_reachable (cfg : Config) (schedule : List (Nat × Action)) :
    Reachable cfg (endState cfg schedule) := by
  unfold endState
  cases executed : execute cfg schedule System.initial with
  | none => exact .refl
  | some s => exact execute_run schedule _ _ executed

/-- A schedule that stops before a step outside the condition. -/
def executeWhile (cfg : Config) (condition : Nat → System → Prop)
    [∀ tid s, Decidable (condition tid s)] : List (Nat × Action) → System → Option System
  | [],s => some s
  | (tid,action) :: schedule,s =>
    if condition tid s then (step cfg s tid action).bind (executeWhile cfg condition schedule)
    else none

theorem executeWhile_run (condition : Nat → System → Prop) [∀ tid s, Decidable (condition tid s)]
    (schedule : List (Nat × Action)) (s t : System)
    (executed : executeWhile cfg condition schedule s = some t) :
    execute cfg schedule s = some t ∧ Run cfg condition s t := by
  induction schedule generalizing s with
  | nil => cases executed; exact ⟨rfl,.refl⟩
  | cons head rest ih =>
    obtain ⟨tid,action⟩ := head
    simp only [executeWhile] at executed
    split at executed
    · obtain ⟨middle,moved,later⟩ := Option.bind_eq_some_iff.mp executed
      obtain ⟨same,run⟩ := ih _ later
      exact ⟨Option.bind_eq_some_iff.mpr ⟨middle,moved,same⟩,
        .head ⟨tid,by assumption,action,moved⟩ run⟩
    · contradiction

theorem execute_append (cfg : Config) (front rest : List (Nat × Action)) (s : System) :
    execute cfg (front ++ rest) s = (execute cfg front s).bind (execute cfg rest) := by
  induction front generalizing s with
  | nil => rfl
  | cons head front ih =>
    simp only [List.cons_append,execute,Option.bind_assoc]
    exact congrArg _ (funext ih)

/-- The part of a schedule checked against a condition is a run that meets it. -/
theorem endState_between (condition : Nat → System → Prop) [∀ tid s, Decidable (condition tid s)]
    (front rest : List (Nat × Action)) (begins : (execute cfg front System.initial).isSome = true)
    (meets : (executeWhile cfg condition rest (endState cfg front)).isSome = true) :
    Run cfg condition (endState cfg front) (endState cfg (front ++ rest)) := by
  obtain ⟨s,executed⟩ := Option.isSome_iff_exists.mp begins
  obtain ⟨t,later⟩ := Option.isSome_iff_exists.mp meets
  obtain ⟨same,run⟩ := executeWhile_run condition rest _ _ later
  have middle : endState cfg front = s := by rw [endState,executed]; rfl
  have last : endState cfg (front ++ rest) = t := by
    rw [middle] at same
    rw [endState,execute_append,executed,Option.bind_some,same]
    rfl
  rw [last]
  exact run

theorem endState_step (front : List (Nat × Action)) (tid : Nat) (action : Action)
    (possible : (execute cfg (front ++ [(tid,action)]) System.initial).isSome = true) :
    step cfg (endState cfg front) tid action = some (endState cfg (front ++ [(tid,action)])) := by
  obtain ⟨t,executed⟩ := Option.isSome_iff_exists.mp possible
  have last : endState cfg (front ++ [(tid,action)]) = t := by rw [endState,executed]; rfl
  rw [execute_append] at executed
  obtain ⟨s,before,moved⟩ := Option.bind_eq_some_iff.mp executed
  rw [last,endState,before]
  simpa [execute] using moved

theorem endState_run (condition : Nat → System → Prop) [∀ tid s, Decidable (condition tid s)]
    (schedule : List (Nat × Action))
    (meets : (executeWhile cfg condition schedule System.initial).isSome = true) :
    Run cfg condition System.initial (endState cfg schedule) :=
  endState_between condition [] schedule rfl meets

theorem stepBy_cases (moved : StepBy cfg tid s t) :
    s.memory.aborted = false ∧
    (∃ action, threadStep cfg tid s.memory (s.control tid) action =
      some (t.memory,t.control tid)) ∧
    ∀ other, other ≠ tid → t.control other = s.control other := by
  obtain ⟨action,moved⟩ := moved
  unfold step at moved
  split at moved
  · contradiction
  · rename_i live
    split at moved
    · contradiction
    · rename_i memory control stepped
      cases moved
      refine ⟨Bool.eq_false_iff.mpr live,⟨action,by simpa using stepped⟩,?_⟩
      intro other different
      simp [different]

theorem stepBy_thread (moved : StepBy cfg tid s t) :
    ThreadStep cfg tid s.memory (s.control tid) t.memory (t.control tid) := by
  obtain ⟨-,⟨action,stepped⟩,-⟩ := stepBy_cases moved
  exact threadStep_cases stepped

theorem stepBy_other (moved : StepBy cfg tid s t) (different : other ≠ tid) :
    t.control other = s.control other := (stepBy_cases moved).2.2 other different

/-- Where a frame of `help_relocate` comes from in a step. -/
inductive HelpOrigin (cfg : Config) (tid : Nat) (s t : System) (other : Nat) (f : HelpFrame) : Prop where
  | kept (different : other ≠ tid) (was : (s.control other).help? = some f) :
      HelpOrigin cfg tid s t other f
  | called (own : other = tid) (entry : f = .enter b i initiator) : HelpOrigin cfg tid s t other f
  | inside (own : other = tid) (was : (s.control tid).help? = some frame)
      (stepped : HelpStep cfg s.memory frame t.memory (.running f)) : HelpOrigin cfg tid s t other f

theorem help_origin (moved : StepBy cfg tid s t) (inside : (t.control other).help? = some f) :
    HelpOrigin cfg tid s t other f := by
  by_cases same : other = tid
  · subst other
    cases stepBy_thread moved with
    | other nested =>
      cases nested with
      | outside _ _ now => rw [now] at inside; contradiction
      | called _ _ now =>
        cases now.symm.trans inside
        exact .called rfl rfl
      | inside was now stepped =>
        cases now.symm.trans inside
        exact .inside rfl was stepped
      | left _ now => rw [now] at inside; contradiction
    | allocate _ _ _ _ now => simp [now,Control.help?,InsertFrame.relocate?] at inside
    | store _ _ _ _ _ now => rw [now] at inside; contradiction
    | take _ _ _ _ _ now => rw [now] at inside; contradiction
  · rw [stepBy_other moved same] at inside
    exact .kept same inside

/-- What a step of its thread makes of a frame of `help_relocate`. -/
inductive HelpOutcome (cfg : Config) (tid : Nat) (s t : System) (f : HelpFrame) : Prop where
  | inside (now : (t.control tid).help? = some after)
      (stepped : HelpStep cfg s.memory f t.memory (.running after)) : HelpOutcome cfg tid s t f
  | left (now : (t.control tid).help? = none)
      (stepped : HelpStep cfg s.memory f middle (.returned ())) (same : Quiet middle t.memory) :
      HelpOutcome cfg tid s t f

theorem help_outcome (moved : StepBy cfg tid s t) (inside : (s.control tid).help? = some f) :
    HelpOutcome cfg tid s t f := by
  cases stepBy_thread moved with
  | other nested =>
    cases nested with
    | outside _ was => rw [was] at inside; contradiction
    | called _ was => rw [was] at inside; contradiction
    | inside was now stepped =>
      cases was.symm.trans inside
      exact .inside now stepped
    | left was now stepped same =>
      cases was.symm.trans inside
      exact .left now stepped same
  | allocate site pc => simp [site,Control.help?,InsertFrame.relocate?,pc] at inside
  | store site pc => simp [site,Control.help?,InsertFrame.relocate?,pc] at inside
  | take site pc => simp [site,Control.help?,RemoveFrame.find?,pc] at inside

/-- Outside `help_relocate` the ordinary steps write nothing. -/
theorem nested_quiet (nested : Nested cfg m before after next) (outside : before = none) :
    Quiet m next := by
  cases nested with
  | outside same => exact same
  | called same => exact same
  | inside was => rw [outside] at was; contradiction
  | left was => rw [outside] at was; contradiction

theorem endState_other (cfg : Config) (schedule : List (Nat × Action))
    (others : ∀ x ∈ schedule, x.1 ≠ tid) : (endState cfg schedule).control tid = .idle := by
  have kept (rest : List (Nat × Action)) (others : ∀ x ∈ rest, x.1 ≠ tid) (s t : System)
      (executed : execute cfg rest s = some t) : t.control tid = s.control tid := by
    induction rest generalizing s with
    | nil => cases executed; rfl
    | cons head rest ih =>
      obtain ⟨middle,moved,later⟩ := Option.bind_eq_some_iff.mp executed
      rw [ih (fun x member => others x (List.mem_cons_of_mem _ member)) middle later]
      exact stepBy_other ⟨head.2,moved⟩ (others head List.mem_cons_self).symm
  unfold endState
  cases executed : execute cfg schedule System.initial with
  | none => rfl
  | some t => exact kept schedule others _ _ executed

theorem endState_idle (cfg : Config) (schedule : List (Nat × Action))
    (threads : ∀ x ∈ schedule, x.1 < n)
    (finished : ∀ tid < n, (endState cfg schedule).control tid = .idle) (tid : Nat) :
    (endState cfg schedule).control tid = .idle := by
  by_cases inside : tid < n
  · exact finished tid inside
  · refine endState_other cfg schedule fun x member same => ?_
    have := threads x member
    omega

/-- A slot keeps its word, or one compare-and-swap of the program expected that
word there and replaced it. -/
inductive SlotStep (m : Memory) (before : Control) (b i : Nat) (word : TablePointer) : Prop where
  | kept (same : word = m.hashTable b i) : SlotStep m before b i word
  | store (site : before = .insert frame) (entry : frame.pc = .store i second ptr1)
      (bucket : b = frame.bucket second) (found : m.hashTable b i = ptr1)
      (created : createPointer (getCounter ptr1) frame.newEntry false = some word) :
      SlotStep m before b i word
  | take (site : before = .remove frame) (entry : frame.pc = .cas location ptr1)
      (bucket : b = frame.hashVal location) (slot : i = location % numItemsPerEntry)
      (found : m.hashTable b i = ptr1)
      (created : createPointer (getCounter ptr1) 0 false = some word) : SlotStep m before b i word
  | mark (inside : before.help? = some f) (entry : f.pc = .markCas ptr1) (bucket : b = f.tableIdx)
      (slot : i = f.slotIdx) (found : m.hashTable b i = ptr1) (same : word = getNewMark ptr1 true) :
      SlotStep m before b i word
  | copy (inside : before.help? = some f) (entry : f.pc = .copyCas ptr1 ptr2 b)
      (slot : i = f.slotIdx) (found : m.hashTable b i = ptr2)
      (created : createPointer (raisedCounter ptr1 ptr2) (getRealPointer ptr1) false = some word) :
      SlotStep m before b i word
  | clear (inside : before.help? = some f) (entry : f.pc = .clearCas ptr1 newHash)
      (bucket : b = f.tableIdx) (slot : i = f.slotIdx) (found : m.hashTable b i = ptr1)
      (created : createPointer (getCounter ptr1 + 1) 0 false = some word) :
      SlotStep m before b i word
  | complete (inside : before.help? = some f) (entry : f.pc = .sameCas ptr1 b)
      (slot : i = f.slotIdx) (found : m.hashTable b i = ptr1)
      (created : createPointer (getCounter ptr1 + 1) 0 false = some word) :
      SlotStep m before b i word
  | rollBack (inside : before.help? = some f) (entry : f.pc = .failCas ptr1 b)
      (slot : i = f.slotIdx) (found : m.hashTable b i = ptr1)
      (created : createPointer (getCounter ptr1 + 1) (getRealPointer ptr1) true = some word) :
      SlotStep m before b i word

/-- After one write a slot is either the written one or unchanged. -/
theorem slot_of_write {before : Control} (m next : Memory) (bucket slot : Nat) (word : TablePointer)
    (table : next.hashTable = (m.write bucket slot word).hashTable)
    (here : SlotStep m before bucket slot word) (b i : Nat) :
    SlotStep m before b i (next.hashTable b i) := by
  rw [table,Memory.write_table]
  split
  · rename_i same
    obtain ⟨rfl,rfl⟩ := same
    exact here
  · exact .kept rfl

theorem helpStep_slot {before : Control} (inside : before.help? = some f)
    (stepped : HelpStep cfg m f next flow) (b i : Nat) :
    SlotStep m before b i (next.hashTable b i) := by
  cases stepped with
  | mark entry found memory =>
    exact slot_of_write m _ _ _ _ (by rw [memory]) (.mark inside entry rfl rfl found rfl) b i
  | copy entry created found memory =>
    exact slot_of_write m _ _ _ _ (by rw [memory]; rfl) (.copy inside entry rfl found created) b i
  | clear entry created found memory =>
    exact slot_of_write m _ _ _ _ (by rw [memory]) (.clear inside entry rfl rfl found created) b i
  | complete entry created found memory =>
    exact slot_of_write m _ _ _ _ (by rw [memory]; rfl) (.complete inside entry rfl found created) b i
  | rollBack entry created found memory =>
    exact slot_of_write m _ _ _ _ (by rw [memory]; rfl) (.rollBack inside entry rfl found created) b i
  | loadMarked _ same => exact .kept (by rw [same.table])
  | loadUnmarked _ same => exact .kept (by rw [same.table])
  | nothing _ same => exact .kept (by rw [same.table])
  | vacant _ same => exact .kept (by rw [same.table])
  | filled _ same => exact .kept (by rw [same.table])
  | abort _ _ memory => exact .kept (by rw [memory]; rfl)
  | _ => exact .kept (by simp [*])

theorem nested_slot {before : Control} {inner : Option HelpFrame}
    (nested : Nested cfg m before.help? inner next) (b i : Nat) :
    SlotStep m before b i (next.hashTable b i) := by
  cases nested with
  | outside same => exact .kept (by rw [same.table])
  | called same => exact .kept (by rw [same.table])
  | inside was now stepped => exact helpStep_slot was stepped b i
  | left was now stepped same => rw [same.table]; exact helpStep_slot was stepped b i

theorem threadStep_slot (stepped : ThreadStep cfg tid m before next after) (b i : Nat) :
    SlotStep m before b i (next.hashTable b i) := by
  cases stepped with
  | other nested => exact nested_slot nested b i
  | allocate site entry fresh memory => exact .kept (by rw [memory]; rfl)
  | store site entry created found same =>
    exact slot_of_write m _ _ _ _ same.table (.store site entry rfl found created) b i
  | take site entry created found same =>
    exact slot_of_write m _ _ _ _ same.table (.take site entry rfl rfl found created) b i

theorem threadStep_one_slot (stepped : ThreadStep cfg tid m before next after) :
    ∃ b i, ∀ b' i', ¬(b' = b ∧ i' = i) → next.hashTable b' i' = m.hashTable b' i' := by
  have written (bucket slot : Nat) (word : TablePointer) (memory : Memory)
      (table : memory.hashTable = (m.write bucket slot word).hashTable) :
      ∃ b i, ∀ b' i', ¬(b' = b ∧ i' = i) → memory.hashTable b' i' = m.hashTable b' i' :=
    ⟨bucket,slot,fun b' i' apart => by rw [table,Memory.write_table,if_neg apart]⟩
  have call (f : HelpFrame) (memory : Memory) (flow : Flow HelpFrame Unit)
      (inner : HelpStep cfg m f memory flow) :
      ∃ b i, ∀ b' i', ¬(b' = b ∧ i' = i) → memory.hashTable b' i' = m.hashTable b' i' := by
    cases inner with
    | mark _ _ same => exact written _ _ _ _ (by rw [same])
    | copy _ _ _ same => exact written _ _ _ _ (by rw [same]; rfl)
    | clear _ _ _ same => exact written _ _ _ _ (by rw [same])
    | complete _ _ _ same => exact written _ _ _ _ (by rw [same]; rfl)
    | rollBack _ _ _ same => exact written _ _ _ _ (by rw [same]; rfl)
    | loadMarked _ same => exact ⟨0,0,fun _ _ _ => by rw [same.table]⟩
    | loadUnmarked _ same => exact ⟨0,0,fun _ _ _ => by rw [same.table]⟩
    | nothing _ same => exact ⟨0,0,fun _ _ _ => by rw [same.table]⟩
    | vacant _ same => exact ⟨0,0,fun _ _ _ => by rw [same.table]⟩
    | filled _ same => exact ⟨0,0,fun _ _ _ => by rw [same.table]⟩
    | abort _ _ same => exact ⟨0,0,fun _ _ _ => by rw [same]; rfl⟩
    | _ => exact ⟨0,0,fun _ _ _ => by simp [*]⟩
  cases stepped with
  | other nested =>
    cases nested with
    | outside same => exact ⟨0,0,fun _ _ _ => by rw [same.table]⟩
    | called same => exact ⟨0,0,fun _ _ _ => by rw [same.table]⟩
    | inside was now inner => exact call _ _ _ inner
    | left was now inner same => rw [same.table]; exact call _ _ _ inner
  | allocate _ _ _ memory => exact ⟨0,0,fun _ _ _ => by rw [memory]; rfl⟩
  | store _ _ _ _ same => exact written _ _ _ _ same.table
  | take _ _ _ _ same => exact written _ _ _ _ same.table

theorem step_other_slot (moved : StepBy cfg tid s t)
    (changed : t.memory.hashTable b i ≠ s.memory.hashTable b i) (apart : ¬(c = b ∧ j = i)) :
    t.memory.hashTable c j = s.memory.hashTable c j := by
  obtain ⟨c',j',same⟩ := threadStep_one_slot (stepBy_thread moved)
  have here : b = c' ∧ i = j' := by
    by_contra away
    exact changed (same b i away)
  obtain ⟨rfl,rfl⟩ := here
  exact same c j apart

theorem helpStep_heap (stepped : HelpStep cfg m f next flow) :
    next.heap = m.heap ∧ next.stored = m.stored ∧ next.removed = m.removed := by
  cases stepped with
  | loadMarked _ same => exact ⟨same.heap,same.stored,same.removed⟩
  | loadUnmarked _ same => exact ⟨same.heap,same.stored,same.removed⟩
  | nothing _ same => exact ⟨same.heap,same.stored,same.removed⟩
  | vacant _ same => exact ⟨same.heap,same.stored,same.removed⟩
  | filled _ same => exact ⟨same.heap,same.stored,same.removed⟩
  | abort _ _ memory => rw [memory]; exact ⟨rfl,rfl,rfl⟩
  | _ => simp [*]

theorem nested_heap (nested : Nested cfg m before after next) :
    next.heap = m.heap ∧ next.stored = m.stored ∧ next.removed = m.removed := by
  cases nested with
  | outside same => exact ⟨same.heap,same.stored,same.removed⟩
  | called same => exact ⟨same.heap,same.stored,same.removed⟩
  | inside was now stepped => exact helpStep_heap stepped
  | left was now stepped same =>
    obtain ⟨heap,stored,removed⟩ := helpStep_heap stepped
    exact ⟨same.heap.trans heap,same.stored.trans stored,same.removed.trans removed⟩

theorem stored_step (stepped : ThreadStep cfg tid m before next after) :
    next.stored = m.stored ∨ ∃ frame i second ptr1, before = .insert frame ∧
      frame.pc = .store i second ptr1 ∧ after = .idle ∧
      next.stored = ⟨tid,frame.key,frame.newEntry,frame.bucket second,i⟩ :: m.stored := by
  cases stepped with
  | other nested => exact .inl (nested_heap nested).2.1
  | allocate _ _ _ memory => exact .inl (by rw [memory]; rfl)
  | store site pc _ _ same now => exact .inr ⟨_,_,_,_,site,pc,now,same.stored⟩
  | take _ _ _ _ same => exact .inl same.stored

theorem removed_step (stepped : ThreadStep cfg tid m before next after) :
    next.removed = m.removed ∨ ∃ frame location ptr1, before = .remove frame ∧
      frame.pc = .cas location ptr1 ∧
      m.hashTable (frame.hashVal location) (location % numItemsPerEntry) = ptr1 ∧
      next.removed = ⟨tid,frame.key,getRealPointer ptr1,frame.hashVal location,
        location % numItemsPerEntry⟩ :: m.removed := by
  cases stepped with
  | other nested => exact .inl (nested_heap nested).2.2
  | allocate _ _ _ memory => exact .inl (by rw [memory]; rfl)
  | store _ _ _ _ same => exact .inl same.removed
  | take site pc _ found same => exact .inr ⟨_,_,_,site,pc,found,same.removed⟩

theorem threadStep_heap (stepped : ThreadStep cfg tid m before next after)
    (allocated : m.heap entry ≠ none) : next.heap entry = m.heap entry := by
  cases stepped with
  | other nested => rw [(nested_heap nested).1]
  | allocate site pc fresh memory =>
    have different : entry ≠ _ := fun same => allocated (same ▸ fresh.2.2)
    simp [memory,Memory.allocate,different]
  | store site pc created found same => rw [same.heap]; rfl
  | take site pc created found same => rw [same.heap]; rfl

theorem step_allocates (moved : step cfg s tid action = some t)
    (allocated : t.memory.heap entry ≠ none) :
    s.memory.heap entry ≠ none ∨ action = .allocate entry := by
  unfold step at moved
  split at moved
  · contradiction
  split at moved
  · contradiction
  rename_i memory control stepped
  cases moved
  change memory.heap entry ≠ none at allocated
  cases threadStep_cases stepped with
  | other nested =>
    rw [(nested_heap nested).1] at allocated
    exact .inl allocated
  | @allocate frame address site pc fresh same now =>
    by_cases given : entry = address
    · cases action with
      | allocate address' =>
        rw [site,now] at stepped
        simp only [threadStep,pc,true_and] at stepped
        split at stepped
        · obtain ⟨-,control⟩ := Prod.mk.inj (Option.some.inj stepped)
          have names := congrArg InsertFrame.newEntry (Control.insert.inj control)
          exact .inr (congrArg Action.allocate (names.trans given.symm))
        · contradiction
      | _ => simp [threadStep,site,Control.pending,pc] at stepped
    · rw [same] at allocated
      exact .inl (by simpa [Memory.allocate,given] using allocated)
  | store site pc created found same =>
    rw [same.heap] at allocated
    exact .inl allocated
  | take site pc created found same =>
    rw [same.heap] at allocated
    exact .inl allocated

theorem execute_allocates (schedule : List (Nat × Action)) (s t : System)
    (executed : execute cfg schedule s = some t) (allocated : t.memory.heap entry ≠ none) :
    s.memory.heap entry ≠ none ∨ ∃ tid, (tid,.allocate entry) ∈ schedule := by
  induction schedule generalizing s with
  | nil =>
    cases executed
    exact .inl allocated
  | cons head rest ih =>
    obtain ⟨middle,moved,later⟩ := Option.bind_eq_some_iff.mp executed
    rcases ih _ later with before | ⟨tid,member⟩
    · rcases step_allocates moved before with old | now
      · exact .inl old
      · exact .inr ⟨head.1,by simp [← now]⟩
    · exact .inr ⟨tid,List.mem_cons_of_mem _ member⟩

end CuckooFilter.LockFree
