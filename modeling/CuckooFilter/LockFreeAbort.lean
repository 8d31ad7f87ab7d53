import CuckooFilter.LockFreeLoss

/-! Where the process aborts: in a call of `help_relocate` whose counter does not fit,
and nowhere else. Every such counter stands on a raise for each of its units. -/
namespace CuckooFilter.LockFree

variable {cfg : Config} {tid : Nat} {s t : System} {m : Memory}

/-- The next step passes `createPointer` a counter above `UINT16_MAX`. -/
def HelpFrame.Overflows (f : HelpFrame) : Prop :=
  ∃ counter, f.counterRequest = some counter ∧ 65535 < counter

theorem compareAndSwap_aborted (m : Memory) (b i : Nat) (expected word : TablePointer) :
    (m.compareAndSwap b i expected word).1.aborted = m.aborted := by
  unfold Memory.compareAndSwap
  split <;> rfl

theorem helpRelocate_aborts {f : HelpFrame} (aborted : (helpRelocate cfg tid m f).1.aborted = true) :
    m.aborted = true ∨ f.Overflows ∧ (helpRelocate cfg tid m f).2 = .running f := by
  cases pc : f.pc with
  | markCas ptr1 =>
    simp only [helpRelocate,pc,compareAndSwap_aborted] at aborted
    exact .inl aborted
  | copyCas ptr1 ptr2 newHash =>
    simp only [helpRelocate,pc] at aborted ⊢
    cases created : createPointer (raisedCounter ptr1 ptr2) (getRealPointer ptr1) false with
    | none =>
      refine .inr ⟨⟨_,?_,createPointer_eq_none.mp created⟩,rfl⟩
      simp only [HelpFrame.counterRequest,pc]
    | some word =>
      simp only [created] at aborted
      by_cases found : m.hashTable newHash f.slotIdx = ptr2
      · simp only [Memory.compareAndSwap,found,if_true] at aborted; exact .inl aborted
      · simp only [Memory.compareAndSwap,found,if_false] at aborted; exact .inl aborted
  | clearCas ptr1 newHash =>
    simp only [helpRelocate,pc] at aborted ⊢
    cases created : createPointer (getCounter ptr1 + 1) 0 false with
    | none =>
      refine .inr ⟨⟨_,?_,createPointer_eq_none.mp created⟩,rfl⟩
      simp only [HelpFrame.counterRequest,pc]
    | some word =>
      simp only [created,compareAndSwap_aborted] at aborted
      exact .inl aborted
  | sameCas ptr1 newHash =>
    simp only [helpRelocate,pc] at aborted ⊢
    cases created : createPointer (getCounter ptr1 + 1) 0 false with
    | none =>
      refine .inr ⟨⟨_,?_,createPointer_eq_none.mp created⟩,rfl⟩
      simp only [HelpFrame.counterRequest,pc]
    | some word =>
      simp only [created] at aborted
      by_cases found : m.hashTable newHash f.slotIdx = ptr1
      · simp only [Memory.compareAndSwap,found,if_true] at aborted; exact .inl aborted
      · simp only [Memory.compareAndSwap,found,if_false] at aborted; exact .inl aborted
  | failCas ptr1 newHash =>
    simp only [helpRelocate,pc] at aborted ⊢
    cases created : createPointer (getCounter ptr1 + 1) (getRealPointer ptr1) true with
    | none =>
      refine .inr ⟨⟨_,?_,createPointer_eq_none.mp created⟩,rfl⟩
      simp only [HelpFrame.counterRequest,pc]
    | some word =>
      simp only [created] at aborted
      by_cases found : m.hashTable newHash f.slotIdx = ptr1
      · simp only [Memory.compareAndSwap,found,if_true] at aborted; exact .inl aborted
      · simp only [Memory.compareAndSwap,found,if_false] at aborted; exact .inl aborted
  | _ =>
    simp only [helpRelocate,pc] at aborted
    exact .inl aborted

private theorem abort_running {after frame : Frame}
    (inner : m.aborted = true ∨ overflow ∧ (Flow.running after : Flow Frame Result) = .running frame)
    (outer : overflow → after = frame → outside) : m.aborted = true ∨ outside := by
  rcases inner with before | ⟨beyond,same⟩
  · exact .inl before
  · exact .inr (outer beyond (Flow.running.inj same))

private theorem abort_returned {frame : Frame}
    (inner : m.aborted = true ∨ overflow ∧ (Flow.returned result : Flow Frame Result) = .running frame) :
    m.aborted = true := by
  rcases inner with before | ⟨-,same⟩
  · exact before
  · contradiction

theorem find_aborts {f : FindFrame} (aborted : (find cfg tid m f).1.aborted = true) :
    m.aborted = true ∨ (∃ frame, f.help? = some frame ∧ frame.Overflows) ∧
      (find cfg tid m f).2 = .running f := by
  cases pc : f.pc with
  | help frame =>
    simp only [find,pc] at aborted ⊢
    cases flow : helpRelocate cfg tid m frame with | mk next result =>
    have inner := @helpRelocate_aborts cfg tid m frame
    rw [flow] at inner aborted
    cases result with
    | running after =>
      refine abort_running (inner aborted) fun beyond same => ?_
      refine ⟨⟨frame,by simp [FindFrame.help?,pc],beyond⟩,?_⟩
      rw [same]
      exact congrArg Flow.running (FindFrame.goto_self pc)
    | returned result => exact .inl (abort_returned (inner aborted))
  | _ =>
    simp only [find,pc] at aborted
    repeat' split at aborted
    all_goals exact .inl aborted

theorem relocate_aborts {f : RelocateFrame} (aborted : (relocate cfg tid m f).1.aborted = true) :
    m.aborted = true ∨ (∃ frame, f.help? = some frame ∧ frame.Overflows) ∧
      (relocate cfg tid m f).2 = .running f := by
  cases pc : f.pc with
  | discoverHelp depth frame | traverseHelp depth i frame | traverseMove depth i frame =>
    simp only [relocate,pc] at aborted ⊢
    cases flow : helpRelocate cfg tid m frame with | mk next result =>
    have inner := @helpRelocate_aborts cfg tid m frame
    rw [flow] at inner aborted
    cases result with
    | running after =>
      refine abort_running (inner aborted) fun beyond same => ?_
      refine ⟨⟨frame,by simp [RelocateFrame.help?,pc],beyond⟩,?_⟩
      rw [same]
      exact congrArg Flow.running (RelocateFrame.goto_self pc)
    | returned result => exact .inl (abort_returned (inner aborted))
  | _ =>
    simp only [relocate,pc] at aborted
    repeat' split at aborted
    all_goals exact .inl aborted

/-- The compare-and-swaps of insertion and removal keep counters that fit. -/
theorem advance_aborts {c : Control} (aborted : (advance cfg tid m c).1.aborted = true) :
    m.aborted = true ∨ (∃ frame, c.help? = some frame ∧ frame.Overflows) ∧
      (advance cfg tid m c).2 = c := by
  cases c with
  | idle => exact .inl aborted
  | find key f =>
    simp only [advance] at aborted ⊢
    cases flow : find cfg tid m f with | mk next result =>
    have inner := @find_aborts cfg tid m f
    rw [flow] at inner aborted
    cases result with
    | running after =>
      refine abort_running (inner aborted) fun beyond same => ⟨beyond,?_⟩
      rw [same]
    | returned result => exact .inl (abort_returned (inner aborted))
  | remove f =>
    cases pc : f.pc with
    | find search =>
      simp only [advance,remove,pc] at aborted ⊢
      cases flow : find cfg tid m search with | mk next result =>
      have inner := @find_aborts cfg tid m search
      rw [flow] at inner aborted
      cases result with
      | running after =>
        refine abort_running (inner aborted) fun beyond same => ?_
        refine ⟨by simpa [Control.help?,RemoveFrame.find?,pc] using beyond,?_⟩
        rw [same]
        exact congrArg Control.remove (RemoveFrame.goto_self pc)
      | returned result =>
        have late : next.aborted = true := by
          by_cases missing : result.1 = numItemsPerEntry * 2
          · simp only [missing,if_true] at aborted; exact aborted
          · simp only [missing,if_false] at aborted; exact aborted
        exact .inl (abort_returned (inner late))
    | cas location ptr1 =>
      obtain ⟨word,created⟩ := createPointer_exists (getCounter_le ptr1) 0 false
      simp only [advance,remove,pc,created] at aborted
      by_cases found : m.hashTable (f.hashVal location) (location % numItemsPerEntry) = ptr1
      · simp only [Memory.compareAndSwap,found,if_true] at aborted; exact .inl aborted
      · simp only [Memory.compareAndSwap,found,if_false] at aborted; exact .inl aborted
  | insert f =>
    cases pc : f.pc with
    | allocate | shuffle =>
      simp only [advance,insert,pc] at aborted
      exact .inl aborted
    | probe i second foundEmpty =>
      simp only [advance,insert,pc] at aborted
      by_cases empty : getRealPointer (m.hashTable (f.bucket second) i) = 0
      · simp only [empty,if_true] at aborted; exact .inl aborted
      · simp only [empty,if_false] at aborted; exact .inl aborted
    | store i second ptr1 =>
      obtain ⟨word,created⟩ := createPointer_exists (getCounter_le ptr1) f.newEntry false
      simp only [advance,insert,pc,created] at aborted
      by_cases found : m.hashTable (f.bucket second) i = ptr1
      · simp only [Memory.compareAndSwap,found,if_true] at aborted; exact .inl aborted
      · simp only [Memory.compareAndSwap,found,if_false] at aborted; exact .inl aborted
    | kick rest frame =>
      simp only [advance,insert,pc] at aborted ⊢
      cases flow : relocate cfg tid m frame with | mk next result =>
      have inner := @relocate_aborts cfg tid m frame
      rw [flow] at inner aborted
      cases result with
      | running after =>
        refine abort_running (inner aborted) fun beyond same => ?_
        refine ⟨by simpa [Control.help?,InsertFrame.relocate?,pc] using beyond,?_⟩
        rw [same]
        exact congrArg Control.insert (InsertFrame.goto_self pc)
      | returned moved =>
        have late : next.aborted = true := by cases moved <;> cases rest <;> exact aborted
        exact .inl (abort_returned (inner late))

theorem threadStep_aborts (stepped : threadStep cfg tid m before action = some (next,after))
    (aborted : next.aborted = true) :
    m.aborted = true ∨ (∃ frame, before.help? = some frame ∧ frame.Overflows) ∧ after = before := by
  cases threadStep_move stepped with
  | invoke call =>
    cases call with
    | _ key => exact .inl aborted
  | allocate | shuffle => exact .inl aborted
  | insert | find | remove => exact advance_aborts aborted

/-- The step that aborts the process leaves its thread before the same call. -/
theorem step_aborts (moved : StepBy cfg tid s t) (aborted : t.memory.aborted = true) :
    (∃ frame, (s.control tid).help? = some frame ∧ frame.Overflows) ∧
      t.control tid = s.control tid := by
  obtain ⟨live,⟨action,stepped⟩,-⟩ := stepBy_cases moved
  exact (threadStep_aborts stepped aborted).resolve_left (by simp [live])

/-- Every counter in a slot or in a thread is covered by the raises so far. -/
structure Covered (s : System) : Prop where
  slots : ∀ b i, getCounter (s.memory.hashTable b i) ≤ s.memory.raises
  cells : ∀ tid cell, cell ∈ (s.control tid).held → getCounter cell.word ≤ s.memory.raises
  clears : ∀ tid f ptr1 newHash, (s.control tid).help? = some f → f.pc = .clearCas ptr1 newHash →
    getCounter ptr1 + 1 ≤ s.memory.raises

theorem covered_initial : Covered System.initial := by
  refine ⟨?_,?_,?_⟩
  · simp [System.initial,Memory.initial]
  · simp [System.initial,Control.held]
  · simp [System.initial,Control.help?]

theorem raisedCounter_le (first : getCounter ptr1 ≤ n) (second : getCounter ptr2 ≤ n) :
    raisedCounter ptr1 ptr2 ≤ n + 1 := by
  unfold raisedCounter
  split <;> omega

theorem request_le {f : HelpFrame} (cells : ∀ cell ∈ f.held, getCounter cell.word ≤ n)
    (request : f.counterRequest = some counter) : counter ≤ n + 1 := by
  cases pc : f.pc with
  | copyCas ptr1 ptr2 newHash =>
    simp only [HelpFrame.counterRequest,pc,Option.some.injEq] at request
    simp only [HelpFrame.held,pc,List.mem_cons,List.not_mem_nil,or_false,forall_eq_or_imp,
      forall_eq] at cells
    exact request ▸ raisedCounter_le cells.1 cells.2
  | clearCas ptr1 newHash | sameCas ptr1 newHash | failCas ptr1 newHash =>
    simp only [HelpFrame.counterRequest,pc,Option.some.injEq] at request
    simp only [HelpFrame.held,pc,List.mem_singleton,forall_eq] at cells
    omega
  | _ => simp [HelpFrame.counterRequest,pc] at request

theorem covered_write (slots : ∀ b i, getCounter (m.hashTable b i) ≤ n) (new : getCounter word ≤ n)
    (bucket slot b i : Nat) : getCounter ((m.write bucket slot word).hashTable b i) ≤ n := by
  rw [Memory.write_table]
  split
  · exact new
  · exact slots b i

theorem helpStep_covered {f : HelpFrame} (slots : ∀ b i, getCounter (m.hashTable b i) ≤ m.raises)
    (cells : ∀ cell ∈ f.held, getCounter cell.word ≤ m.raises)
    (clears : ∀ ptr1 newHash, f.pc = .clearCas ptr1 newHash → getCounter ptr1 + 1 ≤ m.raises)
    (stepped : HelpStep cfg m f next flow) :
    (∀ b i, getCounter (next.hashTable b i) ≤ next.raises) ∧ m.raises ≤ next.raises := by
  have higher (b i : Nat) : getCounter (m.hashTable b i) ≤ m.raises + 1 := (slots b i).trans (by omega)
  have request (counter : Nat) (asks : f.counterRequest = some counter) : counter ≤ m.raises + 1 :=
    request_le cells asks
  have quiet (same : Quiet m next) :
      (∀ b i, getCounter (next.hashTable b i) ≤ next.raises) ∧ m.raises ≤ next.raises := by
    rw [same.table,same.raises]
    exact ⟨slots,le_rfl⟩
  cases stepped with
  | abort _ _ memory => subst memory; exact ⟨slots,le_rfl⟩
  | loadMarked _ same => exact quiet same
  | loadUnmarked _ same => exact quiet same
  | nothing _ same => exact quiet same
  | vacant _ same => exact quiet same
  | filled _ same => exact quiet same
  | mark pc found memory =>
    subst memory
    refine ⟨covered_write slots ?_ _ _,le_rfl⟩
    rw [getNewMark_counter,← found]
    exact slots _ _
  | copy pc created found memory =>
    subst memory
    refine ⟨covered_write higher ?_ _ _,Nat.le_succ _⟩
    rw [createPointer_counter created (getRealPointer_fits _)]
    exact request _ (by simp only [HelpFrame.counterRequest,pc])
  | clear pc created found memory =>
    subst memory
    refine ⟨covered_write slots ?_ _ _,le_rfl⟩
    rw [createPointer_counter created null_fits]
    exact clears _ _ pc
  | complete pc created found memory =>
    subst memory
    refine ⟨covered_write higher ?_ _ _,Nat.le_succ _⟩
    rw [createPointer_counter created null_fits]
    exact request _ (by simp only [HelpFrame.counterRequest,pc])
  | rollBack pc created found memory =>
    subst memory
    refine ⟨covered_write higher ?_ _ _,Nat.le_succ _⟩
    rw [createPointer_counter created (getRealPointer_fits _)]
    exact request _ (by simp only [HelpFrame.counterRequest,pc])
  | markLost _ _ memory | follow _ memory | retry _ _ memory | confirm _ _ memory
  | copyLost _ _ memory | clearLost _ _ memory | completeLost _ _ memory
  | rollBackLost _ _ memory =>
    subst memory
    exact ⟨slots,le_rfl⟩

theorem threadStep_covered (covered : Covered s) (sound : Sound cfg s) (moved : StepBy cfg tid s t) :
    (∀ b i, getCounter (t.memory.hashTable b i) ≤ t.memory.raises) ∧
      s.memory.raises ≤ t.memory.raises := by
  have quiet {m next : Memory} (bound : (∀ b i, getCounter (m.hashTable b i) ≤ m.raises) ∧
      s.memory.raises ≤ m.raises) (same : Quiet m next) :
      (∀ b i, getCounter (next.hashTable b i) ≤ next.raises) ∧ s.memory.raises ≤ next.raises := by
    rwa [same.table,same.raises]
  have call {f : HelpFrame} {next : Memory} {flow : Flow HelpFrame Unit}
      (inside : (s.control tid).help? = some f) (stepped : HelpStep cfg s.memory f next flow) :
      (∀ b i, getCounter (next.hashTable b i) ≤ next.raises) ∧ s.memory.raises ≤ next.raises := by
    refine helpStep_covered covered.slots ?_ ?_ stepped
    · intro cell member
      exact covered.cells tid cell (help_held inside ▸ member)
    · exact fun ptr1 newHash pc => covered.clears tid f ptr1 newHash inside pc
  cases stepBy_thread moved with
  | other nested =>
    cases nested with
    | outside same => exact quiet ⟨covered.slots,le_rfl⟩ same
    | called same => exact quiet ⟨covered.slots,le_rfl⟩ same
    | inside was now stepped => exact call was stepped
    | left was now stepped same => exact quiet (call was stepped) same
  | allocate site pc fresh memory =>
    rw [memory]
    exact ⟨covered.slots,le_rfl⟩
  | @store frame i second ptr1 word site pc created found same =>
    refine quiet ?_ same
    refine ⟨covered_write covered.slots ?_ _ _,le_rfl⟩
    have own : (s.control tid).unstored? = some frame.newEntry := by
      simp [site,Control.unstored?,pc]
    rw [createPointer_counter created (sound_known sound own),← found]
    exact covered.slots _ _
  | take site pc created found same =>
    refine quiet ?_ same
    refine ⟨covered_write covered.slots ?_ _ _,le_rfl⟩
    rw [createPointer_counter created null_fits,← found]
    exact covered.slots _ _

theorem covered_step (covered : Covered s) (sound : Sound cfg s) (moved : StepBy cfg tid s t) :
    Covered t := by
  obtain ⟨slots,more⟩ := threadStep_covered covered sound moved
  refine ⟨slots,?_,?_⟩
  · intro other cell member
    rcases cell_step sound moved member with known | read
    · exact (covered.cells other cell known).trans more
    · rw [← read]
      exact (covered.slots _ _).trans more
  · intro other f ptr1 newHash inside pc
    rcases clear_origin moved inside pc with ⟨g,was,pc'⟩ | ⟨-,-,raised⟩
    · exact (covered.clears other g ptr1 newHash was pc').trans more
    · exact raised.trans_le (slots _ _)

theorem reachable_covered (reachable : Reachable cfg s) : Covered s :=
  (Transition.run_invariant (fun s => Sound cfg s ∧ Covered s)
    (fun _ _ ⟨sound,covered⟩ ⟨_,_,moved⟩ => ⟨sound_step sound moved,covered_step covered sound moved⟩)
    ⟨sound_initial cfg,covered_initial⟩ reachable).2

end CuckooFilter.LockFree
