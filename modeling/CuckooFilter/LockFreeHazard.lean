import CuckooFilter.LockFreePath

/-! Hazard cells. A thread publishes an entry in one of its two cells before it reads the
entry's `str`; the traversal of `relocate`, and a read again after help, publish nothing. -/
namespace CuckooFilter.LockFree

variable {cfg : Config} {tid : Nat} {m next : Memory} {s t : System}

/-- The entry is in one of the two hazard cells of the thread. -/
def Memory.Published (m : Memory) (tid : Nat) (entry : Address) : Prop :=
  m.hazardPtrs tid 0 = entry ∨ m.hazardPtrs tid 1 = entry

instance (m : Memory) (tid : Nat) (entry : Address) : Decidable (m.Published tid entry) :=
  inferInstanceAs (Decidable (_ ∨ _))

def HelpFrame.reads? (f : HelpFrame) : Option Address :=
  match f.pc with
  | .deref ptr1 => some (getRealPointer ptr1)
  | _ => none

def FindFrame.reads? (f : FindFrame) : Option Address :=
  match f.pc with
  | .compareFirst ptr | .compareSecond _ ptr => some (getRealPointer ptr)
  | .help frame => frame.reads?
  | _ => none

def RelocateFrame.reads? (f : RelocateFrame) : Option Address :=
  match f.pc with
  | .discoverDeref _ ptr | .traverseDeref _ _ ptr => some (getRealPointer ptr)
  | .discoverHelp _ frame | .traverseHelp _ _ frame | .traverseMove _ _ frame => frame.reads?
  | _ => none

def Control.reads? : Control → Option Address
  | .idle => none
  | .insert frame => frame.relocate?.bind RelocateFrame.reads?
  | .find _ frame => frame.reads?
  | .remove frame => frame.find?.bind FindFrame.reads?

/-- What a thread is about to read is published. -/
def System.Publishing (s : System) : Prop :=
  ∀ tid entry, (s.control tid).reads? = some entry → s.memory.Published tid entry

def OwnCells (tid : Nat) (m next : Memory) : Prop :=
  ∀ other, other ≠ tid → next.hazardPtrs other = m.hazardPtrs other

theorem OwnCells.refl (tid : Nat) (m : Memory) : OwnCells tid m m := fun _ _ => rfl

theorem OwnCells.trans (first : OwnCells tid a b) (second : OwnCells tid b c) : OwnCells tid a c :=
  fun other away => (second other away).trans (first other away)

theorem markHazard_own (m : Memory) (p : Address) (index tid : Nat) :
    OwnCells tid m (m.markHazard p index tid) := by
  intro other away
  funext cell
  simp [Memory.markHazard,away]

theorem clearHazard_own (m : Memory) (tid : Nat) : OwnCells tid m (m.clearHazard tid) :=
  (markHazard_own m 0 0 tid).trans (markHazard_own _ 0 1 tid)

theorem compareAndSwap_cells (m : Memory) (b i : Nat) (expected word : TablePointer) :
    (m.compareAndSwap b i expected word).1.hazardPtrs = m.hazardPtrs := by
  unfold Memory.compareAndSwap
  split
  · rfl
  · rfl

theorem markHazard_published (m : Memory) (p : Address) (tid : Nat) :
    (m.markHazard p 0 tid).Published tid p ∧ (m.markHazard p 1 tid).Published tid p :=
  ⟨.inl (by simp [Memory.markHazard]),.inr (by simp [Memory.markHazard])⟩

/-- A step that changes only its thread's cells, and under its guard has published what the
thread reads next. -/
structure Publishes (guard : Prop) (tid : Nat) (m next : Memory) (reads : Option Address) : Prop where
  own : OwnCells tid m next
  published : guard → ∀ entry, reads = some entry → next.Published tid entry

variable {guard : Prop}

theorem Publishes.none (own : OwnCells tid m next) : Publishes guard tid m next none :=
  ⟨own,fun _ _ some => nomatch some⟩

theorem Publishes.weaken (publishes : Publishes guard tid m next reads)
    (stronger : guard' → guard) : Publishes guard' tid m next reads :=
  ⟨publishes.own,fun given => publishes.published (stronger given)⟩

theorem Publishes.mark (m : Memory) (p : Address) (tid : Nat) :
    Publishes guard tid m (m.markHazard p 0 tid) (some p) ∧
      Publishes guard tid m (m.markHazard p 1 tid) (some p) := by
  obtain ⟨first,second⟩ := markHazard_published m p tid
  refine ⟨⟨markHazard_own m p 0 tid,?_⟩,⟨markHazard_own m p 1 tid,?_⟩⟩
  · rintro - _ ⟨⟩
    exact first
  · rintro - _ ⟨⟩
    exact second

theorem Publishes.same (cells : next.hazardPtrs = m.hazardPtrs) : Publishes guard tid m next Option.none :=
  .none fun other _ => congrFun cells other

theorem help_publishes (guard : Prop) (cfg : Config) (tid : Nat) (m : Memory) (f : HelpFrame) :
    Publishes guard tid m (helpRelocate cfg tid m f).1
      ((helpRelocate cfg tid m f).2.view HelpFrame.reads?) := by
  cases pc : f.pc with
  | readSource | rereadSource =>
    have own := markHazard_own m (getRealPointer (m.hashTable f.tableIdx f.slotIdx)) 0 tid
    simp only [helpRelocate,pc,HelpFrame.loaded]
    split
    · exact (Publishes.mark m _ tid).1
    · split
      · exact .none own
      · exact .none own
  | markCas ptr1 =>
    simp only [helpRelocate,pc]
    exact .same (compareAndSwap_cells m _ _ _ _)
  | deref ptr1 =>
    simp only [helpRelocate,pc]
    exact .same rfl
  | readDest ptr1 newHash =>
    simp only [helpRelocate,pc]
    split
    · exact .none (markHazard_own m _ 1 tid)
    · unfold HelpFrame.occupied
      split
      · exact .none (markHazard_own m _ 1 tid)
      · exact .none (markHazard_own m _ 1 tid)
  | recheckSource ptr1 ptr2 newHash =>
    simp only [helpRelocate,pc]
    split
    · exact .same rfl
    · exact .same rfl
  | copyCas ptr1 ptr2 newHash =>
    simp only [helpRelocate,pc]
    cases createPointer (raisedCounter ptr1 ptr2) (getRealPointer ptr1) false with
    | none =>
      simp only [Flow.view,HelpFrame.reads?,pc]
      exact .same rfl
    | some word =>
      by_cases found : m.hashTable newHash f.slotIdx = ptr2
      · simp only [Memory.compareAndSwap,found,if_true]
        exact .same rfl
      · simp only [Memory.compareAndSwap,found,if_false,HelpFrame.occupied]
        split
        · exact .same rfl
        · exact .same rfl
  | clearCas ptr1 newHash =>
    simp only [helpRelocate,pc]
    cases createPointer (getCounter ptr1 + 1) 0 false with
    | none =>
      simp only [Flow.view,HelpFrame.reads?,pc]
      exact .same rfl
    | some word => exact .same (compareAndSwap_cells m _ _ _ _)
  | sameCas ptr1 newHash =>
    simp only [helpRelocate,pc]
    cases createPointer (getCounter ptr1 + 1) 0 false with
    | none =>
      simp only [Flow.view,HelpFrame.reads?,pc]
      exact .same rfl
    | some word =>
      by_cases found : m.hashTable newHash f.slotIdx = ptr1
      · simp only [Memory.compareAndSwap,found,if_true]
        exact .same rfl
      · simp only [Memory.compareAndSwap,found,if_false]
        exact .same rfl
  | failCas ptr1 newHash =>
    simp only [helpRelocate,pc]
    cases createPointer (getCounter ptr1 + 1) (getRealPointer ptr1) true with
    | none =>
      simp only [Flow.view,HelpFrame.reads?,pc]
      exact .same rfl
    | some word =>
      by_cases found : m.hashTable newHash f.slotIdx = ptr1
      · simp only [Memory.compareAndSwap,found,if_true]
        exact .same rfl
      · simp only [Memory.compareAndSwap,found,if_false]
        exact .same rfl

theorem find_publishes (guard : Prop) (cfg : Config) (tid : Nat) (m : Memory) (f : FindFrame) :
    Publishes guard tid m (find cfg tid m f).1 ((find cfg tid m f).2.view FindFrame.reads?) := by
  cases pc : f.pc with
  | readFirst =>
    have own := markHazard_own m (getRealPointer (m.hashTable f.hash1 f.slot)) 0 tid
    simp only [find,pc]
    split
    · exact .none own
    · split
      · exact .none (own.trans (clearHazard_own _ tid))
      · exact (Publishes.mark m _ tid).1
  | readSecond ts1 =>
    have own := markHazard_own m (getRealPointer (m.hashTable f.hash2 f.slot)) 1 tid
    simp only [find,pc]
    split
    · exact .none own
    · split
      · exact .none (own.trans (clearHazard_own _ tid))
      · exact (Publishes.mark m _ tid).2
  | compareFirst ptr1 =>
    simp only [find,pc]
    split
    · exact .same rfl
    · exact .same rfl
  | compareSecond ts1 ptr2 =>
    simp only [find,pc]
    split
    · exact .same rfl
    · exact .same rfl
  | recheckFirst ts1 ts2 =>
    simp only [find,pc]
    exact .same rfl
  | recheckSecond ts1 ts2 ts1x =>
    simp only [find,pc]
    split
    · exact .same rfl
    · unfold FindFrame.nextSlot
      split
      · exact .same rfl
      · exact .same rfl
  | help frame =>
    have published := help_publishes guard cfg tid m frame
    simp only [find,pc]
    cases flow : helpRelocate cfg tid m frame with | mk next result =>
    rw [flow] at published
    cases result with
    | running after => exact published
    | returned => exact .none published.own

/-- The pointer that a step of `relocate` takes from a slot to follow it, with no cell marked. -/
def RelocateFrame.takes? (m : Memory) (f : RelocateFrame) : Option TablePointer :=
  match f.pc with
  | .discoverReread _ =>
    let ptr1 := m.hashTable f.tableIdx f.slotIdx
    if getMarked ptr1 then none else some ptr1
  | .traverse depth _ =>
    let sourcePtr := m.hashTable (f.sourceIdx depth) f.slotIdx
    if getMarked sourcePtr then none else some sourcePtr
  | .traverseReread depth _ => some (m.hashTable (f.sourceIdx depth) f.slotIdx)
  | _ => none

/-- Such a pointer, and not null. -/
def RelocateFrame.TakesPointer (m : Memory) (f : RelocateFrame) : Prop :=
  ∃ ptr ∈ f.takes? m, getRealPointer ptr ≠ 0

instance (m : Memory) (f : RelocateFrame) : Decidable (f.TakesPointer m) :=
  match taken : f.takes? m with
  | none => .isFalse (by simp [RelocateFrame.TakesPointer,taken])
  | some ptr =>
    decidable_of_iff (getRealPointer ptr ≠ 0) (by simp [RelocateFrame.TakesPointer,taken])

variable {f : RelocateFrame}

theorem iterate_reads (f : RelocateFrame) (depth i : Int) :
    (f.iterate depth i).view RelocateFrame.reads? = none := by
  unfold RelocateFrame.iterate
  split
  · rfl
  · rfl

theorem discovered_publishes (own : OwnCells tid m next)
    (published : guard → getRealPointer ptr1 ≠ 0 → next.Published tid (getRealPointer ptr1))
    (depth : Int) :
    Publishes guard tid m next ((f.discovered depth ptr1).view RelocateFrame.reads?) := by
  unfold RelocateFrame.discovered
  split
  · rename_i present
    refine ⟨own,?_⟩
    rintro given _ ⟨⟩
    exact published given present
  · rw [iterate_reads]
    exact .none own

theorem sourced_publishes
    (published : guard → getRealPointer ptr ≠ 0 → m.Published tid (getRealPointer ptr))
    (depth i : Int) :
    Publishes guard tid m m ((f.sourced depth i ptr).view RelocateFrame.reads?) := by
  unfold RelocateFrame.sourced
  split
  · rw [iterate_reads]
    exact .same rfl
  · rename_i present
    refine ⟨.refl tid m,?_⟩
    rintro given _ ⟨⟩
    exact published given present

theorem relocate_publishes (cfg : Config) (tid : Nat) (m : Memory) (f : RelocateFrame) :
    Publishes (¬f.TakesPointer m) tid m (relocate cfg tid m f).1
      ((relocate cfg tid m f).2.view RelocateFrame.reads?) := by
  have null (ptr : TablePointer) (takes : f.takes? m = some ptr) (untaken : ¬f.TakesPointer m)
      (present : getRealPointer ptr ≠ 0) : m.Published tid (getRealPointer ptr) :=
    absurd ⟨ptr,takes,present⟩ untaken
  cases pc : f.pc with
  | discover depth =>
    have own := markHazard_own m (getRealPointer (m.hashTable f.tableIdx f.slotIdx)) 0 tid
    simp only [relocate,pc]
    split
    · exact .none (own.trans (clearHazard_own _ tid))
    · exact discovered_publishes own (fun _ _ => (markHazard_published m _ tid).1) depth
  | discoverReread depth =>
    simp only [relocate,pc]
    split
    · exact .none (clearHazard_own m tid)
    · rename_i unmarked
      apply discovered_publishes (.refl tid m)
      exact null _ (by simp [RelocateFrame.takes?,pc,unmarked])
  | discoverDeref depth ptr1 =>
    simp only [relocate,pc]
    split
    · exact .same rfl
    · exact .same rfl
  | traverse depth i =>
    simp only [relocate,pc]
    split
    · exact .none (clearHazard_own m tid)
    · rename_i unmarked
      apply sourced_publishes
      exact null _ (by simp [RelocateFrame.takes?,pc,unmarked])
  | traverseReread depth i =>
    simp only [relocate,pc]
    apply sourced_publishes
    exact null _ (by simp [RelocateFrame.takes?,pc])
  | traverseDeref depth i sourcePtr =>
    simp only [relocate,pc]
    exact .same rfl
  | traverseDest depth i destIdx =>
    have own := markHazard_own m (getRealPointer (m.hashTable destIdx f.slotIdx)) 1 tid
    simp only [relocate,pc]
    split
    · exact .none own
    · exact .none (own.trans (clearHazard_own _ tid))
  | discoverHelp depth frame | traverseHelp depth i frame =>
    have inner := help_publishes (¬f.TakesPointer m) cfg tid m frame
    simp only [relocate,pc]
    cases flow : helpRelocate cfg tid m frame with | mk next result =>
    rw [flow] at inner
    cases result with
    | running after => exact inner
    | returned => exact .none inner.own
  | traverseMove depth i frame =>
    have inner := help_publishes (¬f.TakesPointer m) cfg tid m frame
    simp only [relocate,pc]
    cases flow : helpRelocate cfg tid m frame with | mk next result =>
    rw [flow] at inner
    cases result with
    | running after => exact inner
    | returned =>
      rw [iterate_reads]
      exact .none inner.own

theorem nextProbe_reads (f : InsertFrame) (i : Nat) (second foundEmpty : Bool) :
    (f.nextProbe i second foundEmpty).relocate? = none := by
  unfold InsertFrame.nextProbe
  repeat' split
  all_goals rfl

theorem nextKick_reads (f : InsertFrame) (order : List Nat) :
    (f.nextKick order).view (fun frame => frame.relocate?.bind RelocateFrame.reads?) = none := by
  cases order with
  | nil => rfl
  | cons kickSlot rest => rfl

theorem insert_publishes (cfg : Config) (tid : Nat) (m : Memory) (f : InsertFrame) :
    Publishes (∀ frame ∈ f.relocate?, ¬frame.TakesPointer m) tid m (insert cfg tid m f).1
      ((insert cfg tid m f).2.view fun frame => frame.relocate?.bind RelocateFrame.reads?) := by
  cases pc : f.pc with
  | allocate | shuffle =>
    simp only [insert,pc,Flow.view,InsertFrame.relocate?]
    exact .same rfl
  | probe i second foundEmpty =>
    simp only [insert,pc]
    split
    · exact .same rfl
    · simp only [Flow.view,nextProbe_reads]
      exact .same rfl
  | store i second ptr1 =>
    simp only [insert,pc]
    cases createPointer (getCounter ptr1) f.newEntry false with
    | none =>
      simp only [Flow.view,InsertFrame.relocate?,pc]
      exact .same rfl
    | some word =>
      by_cases found : m.hashTable (f.bucket second) i = ptr1
      · simp only [Memory.compareAndSwap,found,if_true]
        exact .same rfl
      · simp only [Memory.compareAndSwap,found,if_false,Flow.view,nextProbe_reads]
        exact .same rfl
  | kick rest frame =>
    have call : f.relocate? = some frame := by simp [InsertFrame.relocate?,pc]
    have inner := (relocate_publishes cfg tid m frame).weaken
      fun untaken : ∀ frame ∈ f.relocate?, ¬frame.TakesPointer m => untaken frame call
    simp only [insert,pc]
    cases flow : relocate cfg tid m frame with | mk next result =>
    rw [flow] at inner
    cases result with
    | running after => exact inner
    | returned result =>
      cases result with
      | true => exact .none inner.own
      | false =>
        simp only [nextKick_reads]
        exact .none inner.own

theorem remove_publishes (guard : Prop) (cfg : Config) (tid : Nat) (m : Memory) (f : RemoveFrame) :
    Publishes guard tid m (remove cfg tid m f).1 ((remove cfg tid m f).2.view
      fun frame => frame.find?.bind FindFrame.reads?) := by
  cases pc : f.pc with
  | find frame =>
    have inner := find_publishes guard cfg tid m frame
    simp only [remove,pc]
    cases flow : find cfg tid m frame with | mk next result =>
    rw [flow] at inner
    cases result with
    | running after => exact inner
    | returned result =>
      by_cases missing : result.1 = numItemsPerEntry * 2
      · simp only [missing,if_true]
        exact .none inner.own
      · simp only [missing,if_false]
        exact .none inner.own
  | cas location ptr1 =>
    simp only [remove,pc]
    cases createPointer (getCounter ptr1) 0 false with
    | none =>
      simp only [Flow.view,RemoveFrame.find?,pc]
      exact .same rfl
    | some word =>
      by_cases found : m.hashTable (f.hashVal location) (location % numItemsPerEntry) = ptr1
      · simp only [Memory.compareAndSwap,found,if_true]
        exact .same rfl
      · simp only [Memory.compareAndSwap,found,if_false]
        exact .none (clearHazard_own m tid)

theorem advance_publishes (cfg : Config) (tid : Nat) (m : Memory) (before : Control) :
    Publishes (∀ frame ∈ before.relocate?, ¬frame.TakesPointer m) tid m
      (advance cfg tid m before).1 (advance cfg tid m before).2.reads? := by
  cases before with
  | idle => exact .same rfl
  | insert frame =>
    have inner := insert_publishes cfg tid m frame
    simp only [advance]
    cases flow : insert cfg tid m frame with | mk next result =>
    rw [flow] at inner
    cases result with
    | running after => exact inner
    | returned result => exact .none inner.own
  | find key frame =>
    have inner := find_publishes
      (∀ call ∈ (Control.find key frame).relocate?, ¬call.TakesPointer m) cfg tid m frame
    simp only [advance]
    cases flow : find cfg tid m frame with | mk next result =>
    rw [flow] at inner
    cases result with
    | running after => exact inner
    | returned result => exact .none inner.own
  | remove frame =>
    have inner := remove_publishes
      (∀ call ∈ (Control.remove frame).relocate?, ¬call.TakesPointer m) cfg tid m frame
    simp only [advance]
    cases flow : remove cfg tid m frame with | mk next result =>
    rw [flow] at inner
    cases result with
    | running after => exact inner
    | returned result => exact .none inner.own

theorem threadStep_publishes {before after : Control}
    (stepped : threadStep cfg tid m before action = some (next,after)) :
    Publishes (∀ frame ∈ before.relocate?, ¬frame.TakesPointer m) tid m next after.reads? := by
  cases threadStep_move stepped with
  | invoke call =>
    cases call with
    | insert key | find key | remove key => exact .none (clearHazard_own m tid)
  | allocate => exact .same rfl
  | shuffle frame kickSlot rest =>
    have quiet : (Control.insert _).reads? = none := nextKick_reads frame (kickSlot :: rest)
    rw [quiet]
    exact .same rfl
  | insert | find | remove => exact advance_publishes cfg tid m _

theorem published_step
    (published : ∀ entry, (s.control tid).reads? = some entry → s.memory.Published tid entry)
    (untaken : mover = tid → ∀ frame ∈ (s.control tid).relocate?, ¬frame.TakesPointer s.memory)
    (moved : StepBy cfg mover s t) (entry : Address) (reads : (t.control tid).reads? = some entry) :
    t.memory.Published tid entry := by
  obtain ⟨-,⟨action,stepped⟩,others⟩ := stepBy_cases moved
  have publishes := threadStep_publishes stepped
  by_cases own : mover = tid
  · subst own
    exact publishes.published (untaken rfl) entry reads
  · rw [others tid (Ne.symm own)] at reads
    rw [Memory.Published,publishes.own tid (Ne.symm own)]
    exact published entry reads

/-- While the calls of `relocate` of a thread take only null pointers at the reads of lines
494, 516 and 519, which no `mark_hazard` follows, every entry is published when the thread reads
its `str`, whatever the other threads do. -/
theorem entries_published (idle : r.control tid = .idle)
    (run : Run cfg (fun mover s => mover = tid →
      ∀ frame ∈ (s.control tid).relocate?, ¬frame.TakesPointer s.memory) r s)
    (reads : (s.control tid).reads? = some entry) : s.memory.Published tid entry := by
  have always : ∀ entry, (s.control tid).reads? = some entry → s.memory.Published tid entry := by
    refine Transition.run_invariant (fun s =>
      ∀ entry, (s.control tid).reads? = some entry → s.memory.Published tid entry) ?_ ?_ run
    · rintro s t published ⟨mover,untaken,moved⟩
      exact published_step published untaken moved
    · intro entry reads
      rw [idle] at reads
      cases reads
  exact always entry reads

/-- Bucket 0 is full; thread 0 kicks the `a` of its first slot. -/
def kickedSchedule : List (Nat × Action) :=
  inserts 0 keyA 2 2 ++ inserts 0 keyF 4 4 ++ inserts 0 keyF 6 6 ++ inserts 0 keyF 8 8 ++
    inserts 0 keyF 10 8 ++ [(0,.shuffle [0,1,2,3])]

/-- Thread 0 has marked `a` in bucket 1 to move it to bucket 0, and thread 1 looks for it. -/
def soughtSchedule (n : Nat) : List (Nat × Action) :=
  inserts 0 keyF 2 2 ++ inserts 0 keyA 4 3 ++ inserts 0 keyC 6 4 ++ inserts 0 keyC 8 6 ++
    inserts 0 keyC 10 8 ++ [(0,.invoke (.remove keyF))] ++ runs 0 3 ++ inserts 0 keyC 12 8 ++
    [(0,.shuffle [0,1,2,3])] ++ runs 0 9 ++ [(1,.invoke (.find keyA))] ++ runs 1 n

/-- The copying loop reads the fingerprint of `a` for the next bucket, the search compares it
in the bucket it has come to, and path discovery reads that of another `a`. -/
theorem sought_entry_published :
    (endState sampleConfig (soughtSchedule 3)).memory.Published 1 4 ∧
      (endState sampleConfig (soughtSchedule 9)).memory.Published 1 4 ∧
      (endState sampleConfig (kickedSchedule ++ runs 0 1)).memory.Published 0 2 := by
  have kept (tid : Nat) (schedule : List (Nat × Action)) (possible : (executeWhile sampleConfig
      (fun mover s => mover = tid → ∀ frame ∈ (s.control tid).relocate?,
        ¬frame.TakesPointer s.memory) schedule System.initial).isSome = true) (entry : Address)
      (reads : ((endState sampleConfig schedule).control tid).reads? = some entry) :
      (endState sampleConfig schedule).memory.Published tid entry :=
    entries_published rfl (endState_run _ schedule possible) reads
  have helping : ((endState sampleConfig (soughtSchedule 3)).control 1).reads? = some 4 := by
    decide +kernel
  have comparing : ((endState sampleConfig (soughtSchedule 9)).control 1).reads? = some 4 := by
    decide +kernel
  have discovering :
      ((endState sampleConfig (kickedSchedule ++ runs 0 1)).control 0).reads? = some 2 := by
    decide +kernel
  exact ⟨kept 1 _ (by decide +kernel) 4 helping,kept 1 _ (by decide +kernel) 4 comparing,
    kept 0 _ (by decide +kernel) 2 discovering⟩

/-- Three steps later the traversal reads that `a` again. -/
theorem traversed_entry_unpublished : ¬∀ (cfg : Config) (s : System), Reachable cfg s → s.Publishing := by
  intro publishes
  have reads : ((endState sampleConfig (kickedSchedule ++ runs 0 4)).control 0).reads? = some 2 := by
    decide +kernel
  have missing : ¬(endState sampleConfig (kickedSchedule ++ runs 0 4)).memory.Published 0 2 := by
    decide +kernel
  exact missing (publishes sampleConfig _ (endState_reachable _ _) 0 2 reads)

end CuckooFilter.LockFree
