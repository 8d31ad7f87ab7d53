import CuckooFilter.LockFree

/-! What one step can do. Each inversion is proved once, from the machine's own
functions; the invariants of the later modules split on these cases and never
unfold a function again. -/
namespace CuckooFilter.LockFree

/-- Nothing but hazard cells, retired lists, responses and the abort flag changed. -/
structure Quiet (m next : Memory) : Prop where
  table : next.hashTable = m.hashTable
  heap : next.heap = m.heap
  stored : next.stored = m.stored
  removed : next.removed = m.removed
  raises : next.raises = m.raises

@[simp] theorem Quiet.refl (m : Memory) : Quiet m m := ⟨rfl,rfl,rfl,rfl,rfl⟩

theorem Quiet.trans (first : Quiet a b) (second : Quiet b c) : Quiet a c :=
  ⟨second.table.trans first.table,second.heap.trans first.heap,second.stored.trans first.stored,
    second.removed.trans first.removed,second.raises.trans first.raises⟩

@[simp] theorem quiet_abort (m : Memory) : Quiet m m.abort := ⟨rfl,rfl,rfl,rfl,rfl⟩
@[simp] theorem quiet_markHazard (m : Memory) (p : Address) (index tid : Nat) :
    Quiet m (m.markHazard p index tid) := ⟨rfl,rfl,rfl,rfl,rfl⟩
@[simp] theorem quiet_clearHazard (m : Memory) (tid : Nat) : Quiet m (m.clearHazard tid) :=
  ⟨rfl,rfl,rfl,rfl,rfl⟩
@[simp] theorem quiet_retireKey (m : Memory) (pointer : TablePointer) (tid : Nat) :
    Quiet m (m.retireKey pointer tid) := ⟨rfl,rfl,rfl,rfl,rfl⟩
@[simp] theorem quiet_respond (m : Memory) (tid : Nat) (call : Call) (response : Response) :
    Quiet m (m.respond tid call response) := ⟨rfl,rfl,rfl,rfl,rfl⟩
@[simp] theorem quiet_marked_cleared (m : Memory) (p : Address) (index tid : Nat) :
    Quiet m ((m.markHazard p index tid).clearHazard tid) := ⟨rfl,rfl,rfl,rfl,rfl⟩

theorem Memory.write_table (m : Memory) (bucket slot : Nat) (word : TablePointer) (b s : Nat) :
    (m.write bucket slot word).hashTable b s =
      if b = bucket ∧ s = slot then word else m.hashTable b s := rfl

@[simp] theorem Memory.write_heap (m : Memory) (bucket slot : Nat) (word : TablePointer) :
    (m.write bucket slot word).heap = m.heap := rfl
@[simp] theorem Memory.write_str (m : Memory) (bucket slot : Nat) (word : TablePointer) :
    (m.write bucket slot word).str = m.str := rfl
@[simp] theorem Memory.write_stored (m : Memory) (bucket slot : Nat) (word : TablePointer) :
    (m.write bucket slot word).stored = m.stored := rfl
@[simp] theorem Memory.write_removed (m : Memory) (bucket slot : Nat) (word : TablePointer) :
    (m.write bucket slot word).removed = m.removed := rfl
@[simp] theorem Memory.write_raises (m : Memory) (bucket slot : Nat) (word : TablePointer) :
    (m.write bucket slot word).raises = m.raises := rfl
@[simp] theorem Memory.recordRaise_table (m : Memory) : m.recordRaise.hashTable = m.hashTable := rfl
@[simp] theorem Memory.recordRaise_heap (m : Memory) : m.recordRaise.heap = m.heap := rfl
@[simp] theorem Memory.recordRaise_stored (m : Memory) : m.recordRaise.stored = m.stored := rfl
@[simp] theorem Memory.recordRaise_removed (m : Memory) : m.recordRaise.removed = m.removed := rfl
@[simp] theorem Memory.recordRaise_raises (m : Memory) : m.recordRaise.raises = m.raises + 1 := rfl

/-- The counter the next step passes to `createPointer`. -/
def HelpFrame.counterRequest (f : HelpFrame) : Option Nat :=
  match f.pc with
  | .copyCas ptr1 ptr2 _ => some (raisedCounter ptr1 ptr2)
  | .clearCas ptr1 _ | .sameCas ptr1 _ | .failCas ptr1 _ => some (getCounter ptr1 + 1)
  | _ => none

/-- The branches of `helpRelocate`, with the guards they were taken under. -/
inductive HelpStep (cfg : Config) (m : Memory) (f : HelpFrame) (next : Memory) :
    Flow HelpFrame Unit → Prop where
  | abort (request : f.counterRequest = some counter) (beyond : 65535 < counter)
      (memory : next = m.abort) : HelpStep cfg m f next (.running f)
  | loadMarked (entry : f.pc = .readSource ∨ f.pc = .rereadSource) (same : Quiet m next)
      (marked : getMarked (m.hashTable f.tableIdx f.slotIdx) = true) :
      HelpStep cfg m f next (.running (f.goto (.deref (m.hashTable f.tableIdx f.slotIdx))))
  | loadUnmarked (entry : f.pc = .readSource ∨ f.pc = .rereadSource) (same : Quiet m next)
      (unmarked : getMarked (m.hashTable f.tableIdx f.slotIdx) = false)
      (initiator : f.initiator = true)
      (occupied : getRealPointer (m.hashTable f.tableIdx f.slotIdx) ≠ 0) :
      HelpStep cfg m f next (.running (f.goto (.markCas (m.hashTable f.tableIdx f.slotIdx))))
  | nothing (entry : f.pc = .readSource ∨ f.pc = .rereadSource) (same : Quiet m next)
      (unmarked : getMarked (m.hashTable f.tableIdx f.slotIdx) = false)
      (idle : f.initiator = true → getRealPointer (m.hashTable f.tableIdx f.slotIdx) = 0) :
      HelpStep cfg m f next (.returned ())
  | mark (entry : f.pc = .markCas ptr1) (found : m.hashTable f.tableIdx f.slotIdx = ptr1)
      (memory : next = m.write f.tableIdx f.slotIdx (getNewMark ptr1 true)) :
      HelpStep cfg m f next (.running (f.goto .rereadSource))
  | markLost (entry : f.pc = .markCas ptr1) (changed : m.hashTable f.tableIdx f.slotIdx ≠ ptr1)
      (memory : next = m) : HelpStep cfg m f next (.running (f.goto .rereadSource))
  | follow (entry : f.pc = .deref ptr1) (memory : next = m) :
      HelpStep cfg m f next (.running (f.goto (.readDest ptr1
        (getNextHashIndex cfg.tableSize f.tableIdx (m.str (getRealPointer ptr1))))))
  | vacant (entry : f.pc = .readDest ptr1 newHash) (same : Quiet m next)
      (empty : getRealPointer (m.hashTable newHash f.slotIdx) = 0) :
      HelpStep cfg m f next
        (.running (f.goto (.recheckSource ptr1 (m.hashTable newHash f.slotIdx) newHash)))
  | filled (entry : f.pc = .readDest ptr1 newHash) (same : Quiet m next)
      (full : getRealPointer (m.hashTable newHash f.slotIdx) ≠ 0) :
      HelpStep cfg m f next
        (.running (f.occupied ptr1 (getRealPointer (m.hashTable newHash f.slotIdx)) newHash))
  | retry (entry : f.pc = .recheckSource ptr1 ptr2 newHash)
      (changed : m.hashTable f.tableIdx f.slotIdx ≠ ptr1) (memory : next = m) :
      HelpStep cfg m f next (.running (f.goto .readSource))
  | confirm (entry : f.pc = .recheckSource ptr1 ptr2 newHash)
      (found : m.hashTable f.tableIdx f.slotIdx = ptr1) (memory : next = m) :
      HelpStep cfg m f next (.running (f.goto (.copyCas ptr1 ptr2 newHash)))
  | copy (entry : f.pc = .copyCas ptr1 ptr2 newHash)
      (created : createPointer (raisedCounter ptr1 ptr2) (getRealPointer ptr1) false = some word)
      (found : m.hashTable newHash f.slotIdx = ptr2)
      (memory : next = (m.write newHash f.slotIdx word).recordRaise) :
      HelpStep cfg m f next (.running (f.goto (.clearCas ptr1 newHash)))
  | copyLost (entry : f.pc = .copyCas ptr1 ptr2 newHash)
      (changed : m.hashTable newHash f.slotIdx ≠ ptr2) (memory : next = m) :
      HelpStep cfg m f next (.running (f.occupied ptr1 (getRealPointer ptr2) newHash))
  | clear (entry : f.pc = .clearCas ptr1 newHash)
      (created : createPointer (getCounter ptr1 + 1) 0 false = some word)
      (found : m.hashTable f.tableIdx f.slotIdx = ptr1)
      (memory : next = m.write f.tableIdx f.slotIdx word) : HelpStep cfg m f next (.returned ())
  | clearLost (entry : f.pc = .clearCas ptr1 newHash)
      (changed : m.hashTable f.tableIdx f.slotIdx ≠ ptr1) (memory : next = m) :
      HelpStep cfg m f next (.returned ())
  | complete (entry : f.pc = .sameCas ptr1 newHash)
      (created : createPointer (getCounter ptr1 + 1) 0 false = some word)
      (found : m.hashTable newHash f.slotIdx = ptr1)
      (memory : next = (m.write newHash f.slotIdx word).recordRaise) :
      HelpStep cfg m f next (.returned ())
  | completeLost (entry : f.pc = .sameCas ptr1 newHash)
      (changed : m.hashTable newHash f.slotIdx ≠ ptr1) (memory : next = m) :
      HelpStep cfg m f next (.returned ())
  | rollBack (entry : f.pc = .failCas ptr1 newHash)
      (created : createPointer (getCounter ptr1 + 1) (getRealPointer ptr1) true = some word)
      (found : m.hashTable newHash f.slotIdx = ptr1)
      (memory : next = (m.write newHash f.slotIdx word).recordRaise) :
      HelpStep cfg m f next (.returned ())
  | rollBackLost (entry : f.pc = .failCas ptr1 newHash)
      (changed : m.hashTable newHash f.slotIdx ≠ ptr1) (memory : next = m) :
      HelpStep cfg m f next (.returned ())

private theorem loaded_step (cfg : Config) (m next : Memory) (f : HelpFrame) (same : Quiet m next)
    (entry : f.pc = .readSource ∨ f.pc = .rereadSource) :
    HelpStep cfg m f next (f.loaded (m.hashTable f.tableIdx f.slotIdx)) := by
  unfold HelpFrame.loaded
  split
  · exact .loadMarked entry same (by assumption)
  · rename_i unmarked
    have unmarked := Bool.eq_false_iff.mpr unmarked
    split
    · rename_i going
      exact .loadUnmarked entry same unmarked going.1 going.2
    · rename_i stopping
      refine .nothing entry same unmarked ?_
      intro initiator
      by_contra occupied
      exact stopping ⟨initiator,occupied⟩

theorem helpRelocate_step (cfg : Config) (tid : Nat) (m : Memory) (f : HelpFrame) :
    HelpStep cfg m f (helpRelocate cfg tid m f).1 (helpRelocate cfg tid m f).2 := by
  cases pc : f.pc with
  | readSource =>
    simp only [helpRelocate,pc]
    exact loaded_step cfg m _ f (by simp) (.inl pc)
  | rereadSource =>
    simp only [helpRelocate,pc]
    exact loaded_step cfg m _ f (by simp) (.inr pc)
  | markCas ptr1 =>
    simp only [helpRelocate,pc,Memory.compareAndSwap]
    split
    · exact .mark pc (by assumption) rfl
    · exact .markLost pc (by assumption) rfl
  | deref ptr1 =>
    simp only [helpRelocate,pc]
    exact .follow pc rfl
  | readDest ptr1 newHash =>
    simp only [helpRelocate,pc]
    split
    · exact .vacant pc (by simp) (by assumption)
    · exact .filled pc (by simp) (by assumption)
  | recheckSource ptr1 ptr2 newHash =>
    simp only [helpRelocate,pc]
    split
    · rename_i changed
      exact .retry pc (Ne.symm changed) rfl
    · rename_i same
      exact .confirm pc (not_not.mp same).symm rfl
  | copyCas ptr1 ptr2 newHash =>
    simp only [helpRelocate,pc]
    cases created : createPointer (raisedCounter ptr1 ptr2) (getRealPointer ptr1) false with
    | none => exact .abort (by simp [HelpFrame.counterRequest,pc]) (createPointer_eq_none.mp created) rfl
    | some word =>
      by_cases found : m.hashTable newHash f.slotIdx = ptr2
      · simp only [Memory.compareAndSwap,found,if_true]
        exact .copy pc created found rfl
      · simp only [Memory.compareAndSwap,found,if_false]
        exact .copyLost pc found rfl
  | clearCas ptr1 newHash =>
    simp only [helpRelocate,pc]
    cases created : createPointer (getCounter ptr1 + 1) 0 false with
    | none => exact .abort (by simp [HelpFrame.counterRequest,pc]) (createPointer_eq_none.mp created) rfl
    | some word =>
      by_cases found : m.hashTable f.tableIdx f.slotIdx = ptr1
      · simp only [Memory.compareAndSwap,found,if_true]
        exact .clear pc created found rfl
      · simp only [Memory.compareAndSwap,found,if_false]
        exact .clearLost pc found rfl
  | sameCas ptr1 newHash =>
    simp only [helpRelocate,pc]
    cases created : createPointer (getCounter ptr1 + 1) 0 false with
    | none => exact .abort (by simp [HelpFrame.counterRequest,pc]) (createPointer_eq_none.mp created) rfl
    | some word =>
      by_cases found : m.hashTable newHash f.slotIdx = ptr1
      · simp only [Memory.compareAndSwap,found,if_true]
        exact .complete pc created found rfl
      · simp only [Memory.compareAndSwap,found,if_false]
        exact .completeLost pc found rfl
  | failCas ptr1 newHash =>
    simp only [helpRelocate,pc]
    cases created : createPointer (getCounter ptr1 + 1) (getRealPointer ptr1) true with
    | none => exact .abort (by simp [HelpFrame.counterRequest,pc]) (createPointer_eq_none.mp created) rfl
    | some word =>
      by_cases found : m.hashTable newHash f.slotIdx = ptr1
      · simp only [Memory.compareAndSwap,found,if_true]
        exact .rollBack pc created found rfl
      · simp only [Memory.compareAndSwap,found,if_false]
        exact .rollBackLost pc found rfl

theorem FindFrame.goto_self {f : FindFrame} (pc : f.pc = here) : f.goto here = f := by
  rw [FindFrame.goto,← pc]

theorem RelocateFrame.goto_self {f : RelocateFrame} (pc : f.pc = here) : f.goto here = f := by
  rw [RelocateFrame.goto,← pc]

theorem InsertFrame.goto_self {f : InsertFrame} (pc : f.pc = here) : f.goto here = f := by
  rw [InsertFrame.goto,← pc]

theorem RemoveFrame.goto_self {f : RemoveFrame} (pc : f.pc = here) : f.goto here = f := by
  rw [RemoveFrame.goto,← pc]

def FindFrame.help? (f : FindFrame) : Option HelpFrame :=
  match f.pc with
  | .help frame => some frame
  | _ => none

def RelocateFrame.help? (f : RelocateFrame) : Option HelpFrame :=
  match f.pc with
  | .discoverHelp _ frame | .traverseHelp _ _ frame | .traverseMove _ _ frame => some frame
  | _ => none

def InsertFrame.relocate? (f : InsertFrame) : Option RelocateFrame :=
  match f.pc with
  | .kick _ frame => some frame
  | _ => none

def RemoveFrame.find? (f : RemoveFrame) : Option FindFrame :=
  match f.pc with
  | .find frame => some frame
  | _ => none

/-- The call of `help_relocate` a thread is inside. -/
def Control.help? : Control → Option HelpFrame
  | .idle => none
  | .insert frame => frame.relocate?.bind RelocateFrame.help?
  | .find _ frame => frame.help?
  | .remove frame => frame.find?.bind FindFrame.help?

/-- The entry an insertion owns until it stores it. -/
def Control.unstored? : Control → Option Address
  | .insert frame => if frame.pc = .allocate then none else some frame.newEntry
  | _ => none

/-- How a step enters, continues, leaves or stays outside `help_relocate`. -/
inductive Nested (cfg : Config) (m : Memory) (before after : Option HelpFrame) (next : Memory) :
    Prop where
  | outside (same : Quiet m next) (was : before = none) (now : after = none) :
      Nested cfg m before after next
  | called (same : Quiet m next) (was : before = none) (now : after = some (.enter b s initiator)) :
      Nested cfg m before after next
  | inside (was : before = some frame) (now : after = some going)
      (stepped : HelpStep cfg m frame next (.running going)) : Nested cfg m before after next
  | left (was : before = some frame) (now : after = none)
      (stepped : HelpStep cfg m frame middle (.returned ())) (same : Quiet middle next) :
      Nested cfg m before after next

/-- The call a flow is inside, once its frame's view is given. -/
def Flow.view (view : Frame → Option α) : Flow Frame Result → Option α
  | .running frame => view frame
  | .returned _ => none

theorem find_nested (cfg : Config) (tid : Nat) (m : Memory) (f : FindFrame) :
    Nested cfg m f.help? ((find cfg tid m f).2.view FindFrame.help?) (find cfg tid m f).1 := by
  cases pc : f.pc with
  | help frame =>
    have stepped := helpRelocate_step cfg tid m frame
    simp only [find,pc,FindFrame.help?]
    cases flow : helpRelocate cfg tid m frame with | mk next result =>
    rw [flow] at stepped
    cases result with
    | running after => exact .inside rfl rfl stepped
    | returned => exact .left rfl rfl stepped (Quiet.refl _)
  | readFirst =>
    simp only [find,pc,FindFrame.help?]
    split
    · exact .outside (by simp) rfl rfl
    · split
      · exact .called (by simp) rfl rfl
      · exact .outside (by simp) rfl rfl
  | readSecond ts1 =>
    simp only [find,pc,FindFrame.help?]
    split
    · exact .outside (by simp) rfl rfl
    · split
      · exact .called (by simp) rfl rfl
      · exact .outside (by simp) rfl rfl
  | compareFirst ptr1 =>
    simp only [find,pc,FindFrame.help?]
    split <;> exact .outside (by simp) rfl rfl
  | compareSecond ts1 ptr2 =>
    simp only [find,pc,FindFrame.help?]
    split <;> exact .outside (by simp) rfl rfl
  | recheckFirst ts1 ts2 =>
    simp only [find,pc,FindFrame.help?]
    exact .outside (by simp) rfl rfl
  | recheckSecond ts1 ts2 ts1x =>
    simp only [find,pc,FindFrame.help?]
    split
    · exact .outside (by simp) rfl rfl
    · unfold FindFrame.nextSlot
      split <;> exact .outside (by simp) rfl rfl

private theorem discovered_outside (f : RelocateFrame) (depth : Int) (ptr1 : TablePointer) :
    (f.discovered depth ptr1).view RelocateFrame.help? = none := by
  unfold RelocateFrame.discovered RelocateFrame.iterate
  split
  · rfl
  · split <;> rfl

private theorem sourced_outside (f : RelocateFrame) (depth i : Int) (ptr : TablePointer) :
    (f.sourced depth i ptr).view RelocateFrame.help? = none := by
  unfold RelocateFrame.sourced RelocateFrame.iterate
  split
  · split <;> rfl
  · rfl

private theorem iterate_outside (f : RelocateFrame) (depth i : Int) :
    (f.iterate depth i).view RelocateFrame.help? = none := by
  unfold RelocateFrame.iterate
  split <;> rfl

theorem relocate_nested (cfg : Config) (tid : Nat) (m : Memory) (f : RelocateFrame) :
    Nested cfg m f.help? ((relocate cfg tid m f).2.view RelocateFrame.help?)
      (relocate cfg tid m f).1 := by
  cases pc : f.pc with
  | discoverHelp depth frame | traverseHelp depth i frame =>
    have stepped := helpRelocate_step cfg tid m frame
    simp only [relocate,pc,RelocateFrame.help?]
    cases flow : helpRelocate cfg tid m frame with | mk next result =>
    rw [flow] at stepped
    cases result with
    | running after => exact .inside rfl rfl stepped
    | returned => exact .left rfl rfl stepped (Quiet.refl _)
  | traverseMove depth i frame =>
    have stepped := helpRelocate_step cfg tid m frame
    simp only [relocate,pc,RelocateFrame.help?]
    cases flow : helpRelocate cfg tid m frame with | mk next result =>
    rw [flow] at stepped
    cases result with
    | running after => exact .inside rfl rfl stepped
    | returned =>
      change Nested cfg m (some frame) ((f.iterate depth (i - 1)).view RelocateFrame.help?) next
      rw [iterate_outside]
      exact .left rfl rfl stepped (Quiet.refl _)
  | discover depth =>
    have outside : f.help? = none := by simp [RelocateFrame.help?,pc]
    simp only [relocate,pc]
    split
    · rw [outside]
      exact .called (by simp) rfl rfl
    · rw [discovered_outside]
      rw [outside]
      exact .outside (by simp) rfl rfl
  | discoverReread depth =>
    have outside : f.help? = none := by simp [RelocateFrame.help?,pc]
    simp only [relocate,pc]
    split
    · rw [outside]
      exact .called (by simp) rfl rfl
    · rw [discovered_outside]
      rw [outside]
      exact .outside (by simp) rfl rfl
  | discoverDeref depth ptr1 =>
    simp only [relocate,pc,RelocateFrame.help?]
    split <;> exact .outside (by simp) rfl rfl
  | traverse depth i =>
    have outside : f.help? = none := by simp [RelocateFrame.help?,pc]
    simp only [relocate,pc]
    split
    · rw [outside]
      exact .called (by simp) rfl rfl
    · rw [sourced_outside]
      rw [outside]
      exact .outside (by simp) rfl rfl
  | traverseReread depth i =>
    have outside : f.help? = none := by simp [RelocateFrame.help?,pc]
    simp only [relocate,pc]
    rw [sourced_outside,outside]
    exact .outside (by simp) rfl rfl
  | traverseDeref depth i sourcePtr =>
    simp only [relocate,pc,RelocateFrame.help?]
    exact .outside (by simp) rfl rfl
  | traverseDest depth i destIdx =>
    simp only [relocate,pc,RelocateFrame.help?]
    split
    · exact .outside (by simp) rfl rfl
    · exact .called (by simp) rfl rfl

/-- How a call of `relocate` goes on, with the guards of the branch it takes. The slot read
is that of the frame in path discovery and of `source_idx` in the traversal. -/
inductive RelocateStep (cfg : Config) (m : Memory) (f : RelocateFrame) : RelocateFrame → Prop where
  | discoverMarked (entry : f.pc = .discover depth ∨ f.pc = .discoverReread depth)
      (marked : getMarked (m.hashTable f.tableIdx f.slotIdx) = true) :
      RelocateStep cfg m f (f.goto (.discoverHelp depth (.enter f.tableIdx f.slotIdx false)))
  | occupied (entry : f.pc = .discover depth ∨ f.pc = .discoverReread depth)
      (unmarked : getMarked (m.hashTable f.tableIdx f.slotIdx) = false)
      (present : getRealPointer (m.hashTable f.tableIdx f.slotIdx) ≠ 0) :
      RelocateStep cfg m f (f.goto (.discoverDeref depth (m.hashTable f.tableIdx f.slotIdx)))
  | found (entry : f.pc = .discover depth ∨ f.pc = .discoverReread depth)
      (unmarked : getMarked (m.hashTable f.tableIdx f.slotIdx) = false)
      (empty : getRealPointer (m.hashTable f.tableIdx f.slotIdx) = 0) (more : depth - 1 ≥ 0) :
      RelocateStep cfg m f (f.goto (.traverse (depth - 1) (depth - 1)))
  | discoverHelping (entry : f.pc = .discoverHelp depth frame)
      (stepped : HelpStep cfg m frame next (.running after)) :
      RelocateStep cfg m f (f.goto (.discoverHelp depth after))
  | discoverHelped (entry : f.pc = .discoverHelp depth frame) :
      RelocateStep cfg m f (f.goto (.discoverReread depth))
  | deeper (entry : f.pc = .discoverDeref depth ptr1) (more : depth + 1 < numMaxKicks) :
      RelocateStep cfg m f (RelocateFrame.goto { f with
        route := f.route.set depth.toNat f.tableIdx
        tableIdx := getNextHashIndex cfg.tableSize f.tableIdx (m.str (getRealPointer ptr1)) }
        (.discover (depth + 1)))
  | traverseMarked (entry : f.pc = .traverse depth i)
      (marked : getMarked (m.hashTable (f.sourceIdx depth) f.slotIdx) = true) :
      RelocateStep cfg m f (f.goto (.traverseHelp depth i (.enter (f.sourceIdx depth) f.slotIdx false)))
  | traverseHelping (entry : f.pc = .traverseHelp depth i frame)
      (stepped : HelpStep cfg m frame next (.running after)) :
      RelocateStep cfg m f (f.goto (.traverseHelp depth i after))
  | traverseHelped (entry : f.pc = .traverseHelp depth i frame) :
      RelocateStep cfg m f (f.goto (.traverseReread depth i))
  | source (entry : f.pc = .traverse depth i ∨ f.pc = .traverseReread depth i)
      (present : getRealPointer (m.hashTable (f.sourceIdx depth) f.slotIdx) ≠ 0) :
      RelocateStep cfg m f
        (f.goto (.traverseDeref depth i (m.hashTable (f.sourceIdx depth) f.slotIdx)))
  | skip (entry : f.pc = .traverse depth i ∨ f.pc = .traverseReread depth i)
      (empty : getRealPointer (m.hashTable (f.sourceIdx depth) f.slotIdx) = 0) (more : i - 1 ≥ 0) :
      RelocateStep cfg m f (f.goto (.traverse depth (i - 1)))
  | follow (entry : f.pc = .traverseDeref depth i sourcePtr) :
      RelocateStep cfg m f (f.goto (.traverseDest depth i
        (getNextHashIndex cfg.tableSize (f.sourceIdx depth) (m.str (getRealPointer sourcePtr)))))
  | restart (entry : f.pc = .traverseDest depth i destIdx)
      (full : getRealPointer (m.hashTable destIdx f.slotIdx) ≠ 0) :
      RelocateStep cfg m f (f.pathDiscovery (i + 1))
  | move (entry : f.pc = .traverseDest depth i destIdx)
      (empty : getRealPointer (m.hashTable destIdx f.slotIdx) = 0) :
      RelocateStep cfg m f (f.goto (.traverseMove depth i (.enter (f.sourceIdx depth) f.slotIdx true)))
  | moving (entry : f.pc = .traverseMove depth i frame)
      (stepped : HelpStep cfg m frame next (.running after)) :
      RelocateStep cfg m f (f.goto (.traverseMove depth i after))
  | moved (entry : f.pc = .traverseMove depth i frame) (more : i - 1 ≥ 0) :
      RelocateStep cfg m f (f.goto (.traverse depth (i - 1)))

private theorem iterate_running {f : RelocateFrame} (flow : f.iterate depth i = .running g) :
    i ≥ 0 ∧ g = f.goto (.traverse depth i) := by
  unfold RelocateFrame.iterate at flow
  split at flow
  · cases flow
    exact ⟨by assumption,rfl⟩
  · cases flow

private theorem discovered_step {f : RelocateFrame}
    (entry : f.pc = .discover depth ∨ f.pc = .discoverReread depth)
    (unmarked : ¬getMarked (m.hashTable f.tableIdx f.slotIdx) = true)
    (flow : f.discovered depth (m.hashTable f.tableIdx f.slotIdx) = .running g) :
    RelocateStep cfg m f g := by
  have unmarked := Bool.eq_false_iff.mpr unmarked
  unfold RelocateFrame.discovered at flow
  split at flow
  · cases flow
    exact .occupied entry unmarked (by assumption)
  · rename_i empty
    obtain ⟨more,rfl⟩ := iterate_running flow
    exact .found entry unmarked (not_not.mp empty) more

private theorem sourced_step {f : RelocateFrame}
    (entry : f.pc = .traverse depth i ∨ f.pc = .traverseReread depth i)
    (flow : f.sourced depth i (m.hashTable (f.sourceIdx depth) f.slotIdx) = .running g) :
    RelocateStep cfg m f g := by
  unfold RelocateFrame.sourced at flow
  split at flow
  · obtain ⟨more,rfl⟩ := iterate_running flow
    exact .skip entry (by assumption) more
  · cases flow
    exact .source entry (by assumption)

theorem relocate_running {f : RelocateFrame} (flow : (relocate cfg tid m f).2 = .running g) :
    RelocateStep cfg m f g := by
  cases pc : f.pc with
  | discover depth =>
    simp only [relocate,pc] at flow
    split at flow
    · cases flow
      exact .discoverMarked (.inl pc) (by assumption)
    · exact discovered_step (.inl pc) (by assumption) flow
  | discoverReread depth =>
    simp only [relocate,pc] at flow
    split at flow
    · cases flow
      exact .discoverMarked (.inr pc) (by assumption)
    · exact discovered_step (.inr pc) (by assumption) flow
  | discoverHelp depth frame =>
    have stepped := helpRelocate_step cfg tid m frame
    simp only [relocate,pc] at flow
    cases call : helpRelocate cfg tid m frame with | mk next result =>
    rw [call] at stepped flow
    cases result with
    | running after => cases flow; exact .discoverHelping pc stepped
    | returned => cases flow; exact .discoverHelped pc
  | discoverDeref depth ptr1 =>
    simp only [relocate,pc] at flow
    split at flow
    · cases flow
      exact .deeper pc (by assumption)
    · cases flow
  | traverse depth i =>
    simp only [relocate,pc] at flow
    split at flow
    · cases flow
      exact .traverseMarked pc (by assumption)
    · exact sourced_step (.inl pc) flow
  | traverseHelp depth i frame =>
    have stepped := helpRelocate_step cfg tid m frame
    simp only [relocate,pc] at flow
    cases call : helpRelocate cfg tid m frame with | mk next result =>
    rw [call] at stepped flow
    cases result with
    | running after => cases flow; exact .traverseHelping pc stepped
    | returned => cases flow; exact .traverseHelped pc
  | traverseReread depth i =>
    simp only [relocate,pc] at flow
    exact sourced_step (.inr pc) flow
  | traverseDeref depth i sourcePtr =>
    simp only [relocate,pc] at flow
    cases flow
    exact .follow pc
  | traverseDest depth i destIdx =>
    simp only [relocate,pc] at flow
    split at flow
    · cases flow
      exact .restart pc (by assumption)
    · rename_i empty
      cases flow
      exact .move pc (not_not.mp empty)
  | traverseMove depth i frame =>
    have stepped := helpRelocate_step cfg tid m frame
    simp only [relocate,pc] at flow
    cases call : helpRelocate cfg tid m frame with | mk next result =>
    rw [call] at stepped flow
    cases result with
    | running after => cases flow; exact .moving pc stepped
    | returned =>
      obtain ⟨more,rfl⟩ := iterate_running flow
      exact .moved pc more

/-- Every step of a thread. The three constructors after the first are the steps
that move an entry between a thread, the heap and the table. -/
inductive ThreadStep (cfg : Config) (tid : Nat) (m : Memory) (before : Control) (next : Memory)
    (after : Control) : Prop where
  | other (nested : Nested cfg m before.help? after.help? next)
      (entry : after.unstored? = before.unstored? ∨ after.unstored? = none) :
      ThreadStep cfg tid m before next after
  | allocate (site : before = .insert frame) (entry : frame.pc = .allocate)
      (fresh : m.Fresh address) (memory : next = m.allocate address frame.fingerprint)
      (now : after = .insert { frame with newEntry := address, pc := .probe 0 false false }) :
      ThreadStep cfg tid m before next after
  | store (site : before = .insert frame) (entry : frame.pc = .store i second ptr1)
      (created : createPointer (getCounter ptr1) frame.newEntry false = some word)
      (found : m.hashTable (frame.bucket second) i = ptr1)
      (same : Quiet ((m.write (frame.bucket second) i word).recordStored
        ⟨tid,frame.key,frame.newEntry,frame.bucket second,i⟩) next) (now : after = .idle) :
      ThreadStep cfg tid m before next after
  | take (site : before = .remove frame) (entry : frame.pc = .cas location ptr1)
      (created : createPointer (getCounter ptr1) 0 false = some word)
      (found : m.hashTable (frame.hashVal location) (location % numItemsPerEntry) = ptr1)
      (same : Quiet ((m.write (frame.hashVal location) (location % numItemsPerEntry)
        word).recordRemoved ⟨tid,frame.key,getRealPointer ptr1,frame.hashVal location,
          location % numItemsPerEntry⟩) next) (now : after = .idle) :
      ThreadStep cfg tid m before next after

@[simp] theorem nextProbe_pc (f : InsertFrame) (i : Nat) (second foundEmpty : Bool) :
    (f.nextProbe i second foundEmpty).pc ≠ .allocate ∧
      (f.nextProbe i second foundEmpty).relocate? = none := by
  unfold InsertFrame.nextProbe
  repeat' split
  all_goals simp [InsertFrame.goto,InsertFrame.relocate?]

@[simp] theorem nextProbe_frame (f : InsertFrame) (i : Nat) (second foundEmpty : Bool) :
    (f.nextProbe i second foundEmpty).key = f.key ∧
      (f.nextProbe i second foundEmpty).newEntry = f.newEntry ∧
      (f.nextProbe i second foundEmpty).fingerprint = f.fingerprint ∧
      (f.nextProbe i second foundEmpty).hash1 = f.hash1 ∧
      (f.nextProbe i second foundEmpty).hash2 = f.hash2 := by
  unfold InsertFrame.nextProbe
  repeat' split
  all_goals simp [InsertFrame.goto]

theorem Nested.quiet (nested : Nested cfg m before after next) (same : Quiet next final) :
    after = none → Nested cfg m before after final := by
  intro gone
  cases nested with
  | outside quiet was now => exact .outside (quiet.trans same) was now
  | called quiet was now => rw [gone] at now; contradiction
  | inside was now => rw [gone] at now; contradiction
  | left was now stepped quiet => exact .left was now stepped (quiet.trans same)

theorem insert_step (cfg : Config) (tid : Nat) (m : Memory) (f : InsertFrame)
    (allocated : f.pc ≠ .allocate) :
    ThreadStep cfg tid m (.insert f) (advance cfg tid m (.insert f)).1
      (advance cfg tid m (.insert f)).2 := by
  have entry : (Control.insert f).unstored? = some f.newEntry := by
    simp [Control.unstored?,allocated]
  cases pc : f.pc with
  | allocate => contradiction
  | shuffle =>
    simp only [advance,insert,pc]
    refine .other ?_ (.inl rfl)
    have apart : (Control.insert f).help? = none := by simp [Control.help?,InsertFrame.relocate?,pc]
    rw [apart]
    exact .outside (Quiet.refl m) rfl rfl
  | probe i second foundEmpty =>
    have before : (Control.insert f).help? = none := by
      simp [Control.help?,InsertFrame.relocate?,pc]
    simp only [advance,insert,pc]
    by_cases empty : getRealPointer (m.hashTable (f.bucket second) i) = 0
    · simp only [empty,if_true]
      refine .other ?_ (.inl (by simp [Control.unstored?,pc,InsertFrame.goto]))
      rw [before]
      exact .outside (Quiet.refl m) rfl rfl
    · simp only [empty,if_false]
      refine .other ?_ (.inl (by simp [Control.unstored?,pc]))
      rw [before]
      exact .outside (Quiet.refl m) rfl (by simp [Control.help?])
  | store i second ptr1 =>
    have before : (Control.insert f).help? = none := by
      simp [Control.help?,InsertFrame.relocate?,pc]
    simp only [advance,insert,pc]
    cases created : createPointer (getCounter ptr1) f.newEntry false with
    | none =>
      refine .other ?_ (.inl rfl)
      simp only [before]
      exact .outside (by simp) rfl rfl
    | some word =>
      by_cases found : m.hashTable (f.bucket second) i = ptr1
      · simp only [Memory.compareAndSwap,found,if_true]
        exact .store rfl pc created found (by simp) rfl
      · simp only [Memory.compareAndSwap,found,if_false]
        refine .other ?_ (.inl (by simp [Control.unstored?,pc]))
        rw [before]
        exact .outside (Quiet.refl m) rfl (by simp [Control.help?])
  | kick rest frame =>
    have nested := relocate_nested cfg tid m frame
    have before : (Control.insert f).help? = frame.help? := by
      simp [Control.help?,InsertFrame.relocate?,pc]
    simp only [advance,insert,pc]
    cases flow : relocate cfg tid m frame with | mk next result =>
    rw [flow] at nested
    cases result with
    | running after =>
      refine .other ?_ (.inl (by simp [Control.unstored?,pc,InsertFrame.goto]))
      rw [before]
      exact nested
    | returned result =>
      cases result with
      | true =>
        refine .other ?_ (.inl (by simp [Control.unstored?,pc,InsertFrame.goto]))
        rw [before]
        exact nested
      | false =>
        cases rest with
        | nil =>
          simp only [InsertFrame.nextKick]
          refine .other ?_ (.inr rfl)
          rw [before]
          exact nested.quiet (by simp) rfl
        | cons kickSlot rest =>
          simp only [InsertFrame.nextKick]
          refine .other ?_ (.inl (by simp [Control.unstored?,pc,InsertFrame.goto]))
          rw [before]
          exact nested

theorem remove_step (cfg : Config) (tid : Nat) (m : Memory) (f : RemoveFrame) :
    ThreadStep cfg tid m (.remove f) (advance cfg tid m (.remove f)).1
      (advance cfg tid m (.remove f)).2 := by
  cases pc : f.pc with
  | find frame =>
    have nested := find_nested cfg tid m frame
    have before : (Control.remove f).help? = frame.help? := by
      simp [Control.help?,RemoveFrame.find?,pc]
    simp only [advance,remove,pc]
    cases flow : find cfg tid m frame with | mk next result =>
    rw [flow] at nested
    cases result with
    | running after =>
      refine .other ?_ (.inr rfl)
      rw [before]
      exact nested
    | returned result =>
      by_cases missing : result.1 = numItemsPerEntry * 2
      · simp only [missing,if_true]
        refine .other ?_ (.inr rfl)
        rw [before]
        exact nested.quiet (by simp) rfl
      · simp only [missing,if_false]
        refine .other ?_ (.inr rfl)
        rw [before]
        exact nested
  | cas location ptr1 =>
    have before : (Control.remove f).help? = none := by
      simp [Control.help?,RemoveFrame.find?,pc]
    simp only [advance,remove,pc]
    cases created : createPointer (getCounter ptr1) 0 false with
    | none =>
      refine .other ?_ (.inr rfl)
      simp only [before]
      exact .outside (by simp) rfl rfl
    | some word =>
      by_cases found :
          m.hashTable (f.hashVal location) (location % numItemsPerEntry) = ptr1
      · simp only [Memory.compareAndSwap,found,if_true]
        exact .take rfl pc created found ⟨rfl,rfl,rfl,rfl,rfl⟩ rfl
      · simp only [Memory.compareAndSwap,found,if_false]
        refine .other ?_ (.inr rfl)
        rw [before]
        exact .outside (by simp) rfl rfl

theorem find_step (cfg : Config) (tid : Nat) (m : Memory) (key : Bytes) (f : FindFrame) :
    ThreadStep cfg tid m (.find key f) (advance cfg tid m (.find key f)).1
      (advance cfg tid m (.find key f)).2 := by
  have nested := find_nested cfg tid m f
  simp only [advance]
  cases flow : find cfg tid m f with | mk next result =>
  rw [flow] at nested
  cases result with
  | running after => exact .other nested (.inr rfl)
  | returned result => exact .other (nested.quiet (by simp) rfl) (.inr rfl)

/-- The inversion of `threadStep`: what each action finds and leaves. -/
inductive ThreadMove (cfg : Config) (tid : Nat) (m : Memory) : Control → Memory → Control → Prop where
  | invoke (call : Call) :
      ThreadMove cfg tid m .idle (LockFree.invoke cfg tid m call).1 (LockFree.invoke cfg tid m call).2
  | allocate (frame : InsertFrame) (address : Address) (begins : frame.pc = .allocate)
      (fresh : m.Fresh address) :
      ThreadMove cfg tid m (.insert frame) (m.allocate address frame.fingerprint)
        (.insert { frame with newEntry := address, pc := .probe 0 false false })
  | shuffle (frame : InsertFrame) (kickSlot : Nat) (rest : List Nat) (kicks : frame.pc = .shuffle)
      (permuted : (kickSlot :: rest).Perm (List.range numItemsPerEntry)) :
      ThreadMove cfg tid m (.insert frame) m
        (.insert (frame.goto (.kick rest (.enter frame.hash1 kickSlot))))
  | insert (frame : InsertFrame) (allocated : frame.pc ≠ .allocate) (shuffled : frame.pc ≠ .shuffle) :
      ThreadMove cfg tid m (.insert frame) (advance cfg tid m (.insert frame)).1
        (advance cfg tid m (.insert frame)).2
  | find (key : Bytes) (frame : FindFrame) :
      ThreadMove cfg tid m (.find key frame) (advance cfg tid m (.find key frame)).1
        (advance cfg tid m (.find key frame)).2
  | remove (frame : RemoveFrame) :
      ThreadMove cfg tid m (.remove frame) (advance cfg tid m (.remove frame)).1
        (advance cfg tid m (.remove frame)).2

theorem threadStep_move (stepped : threadStep cfg tid m before action = some (next,after)) :
    ThreadMove cfg tid m before next after := by
  cases action with
  | invoke call =>
    simp only [threadStep] at stepped
    split at stepped
    · rename_i idle
      obtain ⟨rfl,rfl⟩ := Prod.mk.inj (Option.some.inj stepped)
      rw [idle]
      exact .invoke call
    · contradiction
  | allocate address =>
    simp only [threadStep] at stepped
    split at stepped
    · rename_i frame
      split at stepped
      · rename_i guard
        cases stepped
        exact .allocate frame address guard.1 guard.2
      · contradiction
    · contradiction
  | shuffle order =>
    simp only [threadStep] at stepped
    split at stepped
    · rename_i frame
      split at stepped
      · rename_i guard
        cases order with
        | nil => simp [InsertFrame.nextKick] at stepped
        | cons kickSlot rest =>
          cases stepped
          exact .shuffle frame kickSlot rest guard.1 guard.2
      · contradiction
    · contradiction
  | run =>
    simp only [threadStep] at stepped
    split at stepped
    · contradiction
    · rename_i ready
      obtain ⟨rfl,rfl⟩ := Prod.mk.inj (Option.some.inj stepped)
      cases before with
      | idle => simp at ready
      | insert frame =>
        apply ThreadMove.insert
        · intro entry; simp [Control.pending,entry] at ready
        · intro entry; simp [Control.pending,entry] at ready
      | find key frame => exact .find key frame
      | remove frame => exact .remove frame

/-- Every step of a thread is one of the four kinds. -/
theorem threadStep_cases (stepped : threadStep cfg tid m before action = some (next,after)) :
    ThreadStep cfg tid m before next after := by
  cases threadStep_move stepped with
  | invoke call =>
    cases call with
    | _ key => exact .other (.outside (by simp [LockFree.invoke]) rfl rfl) (.inr rfl)
  | allocate frame address begins fresh => exact .allocate rfl begins fresh rfl rfl
  | shuffle frame kickSlot rest kicks permuted =>
    refine .other ?_ (.inl (by simp [Control.unstored?,kicks,InsertFrame.goto]))
    have apart : (Control.insert frame).help? = none := by
      simp [Control.help?,InsertFrame.relocate?,kicks]
    rw [apart]
    exact .outside (Quiet.refl m) rfl rfl
  | insert frame allocated => exact insert_step cfg tid m frame allocated
  | find key frame => exact find_step cfg tid m key frame
  | remove frame => exact remove_step cfg tid m frame

end CuckooFilter.LockFree
