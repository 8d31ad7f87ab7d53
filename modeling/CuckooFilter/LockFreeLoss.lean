import CuckooFilter.LockFreeRange
import CuckooFilter.LockFreeCounter

/-! No entry is lost while line 415 takes nothing out. Its compare-and-swap expects
the source word in the destination slot; when source and destination are one slot it
succeeds and erases an entry that no copy has moved. -/
namespace CuckooFilter.LockFree

def Memory.taken (m : Memory) : List Address := m.removed.map Transfer.entry

theorem removed_grows (moved : StepBy cfg tid s t) (member : x ∈ s.memory.removed) :
    x ∈ t.memory.removed := by
  rcases removed_step (stepBy_thread moved) with same | ⟨_,_,_,_,_,_,same⟩
  · exact same ▸ member
  · rw [same]; exact List.mem_cons_of_mem _ member

theorem taken_grows (moved : StepBy cfg tid s t) (member : entry ∈ s.memory.taken) :
    entry ∈ t.memory.taken := by
  obtain ⟨x,removed,rfl⟩ := List.mem_map.mp member
  exact List.mem_map_of_mem (removed_grows moved removed)

theorem take_recorded (moved : StepBy cfg tid s t) (site : s.control tid = .remove frame)
    (pc : frame.pc = .cas location ptr1)
    (changed : t.memory.hashTable b i ≠ s.memory.hashTable b i) :
    getRealPointer ptr1 ∈ t.memory.taken := by
  have outside : (s.control tid).help? = none := by
    simp [site,Control.help?,RemoveFrame.find?,pc]
  cases stepBy_thread moved with
  | other nested =>
    rw [(nested_quiet nested outside).table] at changed
    contradiction
  | allocate site' => rw [site] at site'; contradiction
  | store site' => rw [site] at site'; contradiction
  | take site' pc' _ _ same =>
    cases site.symm.trans site'
    cases pc.symm.trans pc'
    rw [Memory.taken,same.removed]
    exact List.mem_cons_self

/-- Some slot holds the entry with a counter of at least `counter`. -/
def Holder (s : System) (entry : Address) (counter : Nat) : Prop :=
  ∃ b i, getRealPointer (s.memory.hashTable b i) = entry ∧
    counter ≤ getCounter (s.memory.hashTable b i)

/-- Line 415 is about to empty `new_hash`. -/
def ErasesDestination (tid : Nat) (s : System) : Prop :=
  ∃ f ptr1 newHash, (s.control tid).help? = some f ∧ f.pc = .sameCas ptr1 newHash ∧
    s.memory.hashTable newHash f.slotIdx = ptr1

instance (tid : Nat) (s : System) : Decidable (ErasesDestination tid s) :=
  match call : (s.control tid).help? with
  | none => isFalse (by rintro ⟨f,_,_,inside,-⟩; simp [call] at inside)
  | some f =>
    match pc : f.pc with
    | .sameCas ptr1 newHash =>
      if found : s.memory.hashTable newHash f.slotIdx = ptr1 then
        isTrue ⟨f,ptr1,newHash,call,pc,found⟩
      else isFalse (by
        rintro ⟨g,_,_,inside,site,same⟩
        cases call.symm.trans inside
        cases pc.symm.trans site
        exact found same)
    | .readSource | .markCas _ | .rereadSource | .deref _ | .readDest _ _ | .recheckSource _ _ _
    | .copyCas _ _ _ | .clearCas _ _ | .failCas _ _ => isFalse (by
        rintro ⟨g,_,_,inside,site,-⟩
        cases call.symm.trans inside
        rw [pc] at site; contradiction)

/-- Every entry not yet taken has a slot, and before a source is cleared its entry is
elsewhere, under a higher counter. -/
structure Kept (s : System) : Prop where
  held : ∀ x ∈ s.memory.stored, x.entry ∈ s.memory.taken ∨ Holder s x.entry 0
  copied : ∀ tid f ptr1 newHash, (s.control tid).help? = some f → f.pc = .clearCas ptr1 newHash →
    getRealPointer ptr1 ∈ s.memory.taken ∨ Holder s (getRealPointer ptr1) (getCounter ptr1 + 1)

theorem kept_initial : Kept System.initial := by
  constructor <;> simp [System.initial,Memory.initial,Control.help?]

theorem holder_step (formed : Formed cfg s) (kept : Kept s) (moved : StepBy cfg tid s t)
    (spares : ¬ErasesDestination tid s) (present : entry ≠ 0) (holder : Holder s entry counter) :
    entry ∈ t.memory.taken ∨ Holder t entry counter := by
  obtain ⟨b,i,rfl,least⟩ := holder
  have stays (real : getRealPointer (t.memory.hashTable b i) =
      getRealPointer (s.memory.hashTable b i)) :
      Holder t (getRealPointer (s.memory.hashTable b i)) counter :=
    ⟨b,i,real,least.trans (slotChange_counter (step_change formed.sound moved b i))⟩
  by_cases changed : t.memory.hashTable b i = s.memory.hashTable b i
  · exact .inr (stays (by rw [changed]))
  cases threadStep_slot (stepBy_thread moved) b i with
  | kept same => exact absurd same changed
  | @store frame second ptr1 site pc bucket found =>
    have empty := formed.control tid
    rw [site] at empty
    exact absurd (found ▸ empty i second ptr1 pc) present
  | take site pc bucket slot found =>
    rw [found]
    exact .inl (take_recorded moved site pc changed)
  | mark inside pc bucket slot found same =>
    exact .inr (stays (by rw [same,getNewMark_real,found]))
  | @copy f ptr1 ptr2 inside pc slot found =>
    have shape := formed.help tid f inside
    simp only [HelpFrame.Formed,pc] at shape
    exact absurd (found ▸ shape.2.2) present
  | @clear f ptr1 newHash inside pc bucket slot found =>
    -- The copy that came before this clear put the entry under a higher counter.
    rcases kept.copied tid f ptr1 newHash inside pc with gone | ⟨c,j,holds,higher⟩
    · exact .inl (taken_grows moved (found ▸ gone))
    · rw [found] at least ⊢
      have apart : ¬(c = b ∧ j = i) := by
        rintro ⟨rfl,rfl⟩
        rw [found] at higher
        omega
      refine .inr ⟨c,j,?_,?_⟩
      · rw [step_other_slot moved changed apart,holds]
      · rw [step_other_slot moved changed apart]
        omega
  | complete inside pc slot found =>
    exact absurd ⟨_,_,_,inside,pc,slot ▸ found⟩ spares
  | rollBack inside pc slot found created =>
    exact .inr (stays (by rw [createPointer_real created (getRealPointer_fits _),found]))

theorem holder_of_taken_or (present : entry ≠ 0) (formed : Formed cfg s) (kept : Kept s)
    (moved : StepBy cfg tid s t) (spares : ¬ErasesDestination tid s)
    (before : entry ∈ s.memory.taken ∨ Holder s entry counter) :
    entry ∈ t.memory.taken ∨ Holder t entry counter := by
  rcases before with gone | holder
  · exact .inl (taken_grows moved gone)
  · exact holder_step formed kept moved spares present holder

/-- A thread comes to the clearing of a source only by a copy of its word. -/
theorem clear_origin (moved : StepBy cfg tid s t) (inside : (t.control other).help? = some f)
    (pc : f.pc = .clearCas ptr1 newHash) :
    (∃ g, (s.control other).help? = some g ∧ g.pc = .clearCas ptr1 newHash) ∨
    other = tid ∧ getRealPointer (t.memory.hashTable newHash f.slotIdx) = getRealPointer ptr1 ∧
      getCounter ptr1 < getCounter (t.memory.hashTable newHash f.slotIdx) := by
  cases help_origin moved inside with
  | kept _ was => exact .inl ⟨f,was,pc⟩
  | called _ entry => rw [entry] at pc; contradiction
  | @inside frame own was stepped =>
    subst own
    cases stepped with
    | abort => exact .inl ⟨_,was,pc⟩
    | @copy ptr1' ptr2 newHash' word entry created found memory =>
      cases pc
      refine .inr ⟨rfl,?_⟩
      have written : t.memory.hashTable newHash frame.slotIdx = word := by
        rw [memory]
        simp [Memory.write_table]
      simp only [HelpFrame.goto]
      rw [written,createPointer_real created (getRealPointer_fits _),
        createPointer_counter created (getRealPointer_fits _)]
      exact ⟨rfl,(raisedCounter_gt ptr1 ptr2).1⟩
    | filled =>
      unfold HelpFrame.occupied at pc
      split at pc <;> contradiction
    | copyLost =>
      unfold HelpFrame.occupied at pc
      split at pc <;> contradiction
    | _ => contradiction

theorem kept_step (formed : Formed cfg s) (kept : Kept s) (moved : StepBy cfg tid s t)
    (spares : ¬ErasesDestination tid s) : Kept t := by
  constructor
  · intro x member
    rcases stored_step (stepBy_thread moved) with same | ⟨frame,i,second,ptr1,site,pc,-,same⟩
    · rw [same] at member
      have present := (formed.sound.stored x member).1
      exact holder_of_taken_or present formed kept moved spares (kept.held x member)
    · rw [same] at member
      rcases List.mem_cons.mp member with rfl | known
      · cases stepBy_thread moved with
        | store site' pc' created found quiet =>
          cases site.symm.trans site'
          cases pc.symm.trans pc'
          have own : (s.control tid).unstored? = some frame.newEntry := by
            simp [site,Control.unstored?,pc]
          refine .inr ⟨frame.bucket second,i,?_,Nat.zero_le _⟩
          rw [quiet.table]
          have fits := sound_known formed.sound own
          simpa [Memory.recordStored,Memory.write_table] using createPointer_real created fits
        | other nested =>
          rw [(nested_heap nested).2.1] at same
          simp at same
        | allocate site' pc' =>
          cases site.symm.trans site'
          rw [pc] at pc'; contradiction
        | take site' => rw [site] at site'; contradiction
      · have present := (formed.sound.stored x known).1
        exact holder_of_taken_or present formed kept moved spares (kept.held x known)
  · intro other f ptr1 newHash inside pc
    rcases clear_origin moved inside pc with ⟨g,was,before⟩ | ⟨-,real,higher⟩
    · have shape := formed.help other g was
      simp only [HelpFrame.Formed,before] at shape
      exact holder_of_taken_or shape.1.2 formed kept moved spares
        (kept.copied other g ptr1 newHash was before)
    · exact .inr ⟨newHash,f.slotIdx,real,higher⟩

theorem run_kept (run : Run cfg (fun tid s => ¬ErasesDestination tid s) System.initial s) :
    Kept s :=
  (Transition.run_invariant (fun s => Formed cfg s ∧ Kept s)
    (fun _ _ ⟨formed,kept⟩ ⟨_,spares,moved⟩ =>
      ⟨formed_step formed moved,kept_step formed kept moved spares⟩)
    ⟨formed_initial cfg,kept_initial⟩ run).2

/-- While line 415 takes nothing out, every stored entry that no removal has taken is
in a slot of the table. -/
theorem entries_never_lost
    (run : Run cfg (fun tid s => ¬ErasesDestination tid s) System.initial s)
    (stored : x ∈ s.memory.stored) (untaken : ∀ y ∈ s.memory.removed, y.entry ≠ x.entry) :
    ∃ b i, b < cfg.tableSize ∧ i < numItemsPerEntry ∧
      getRealPointer (s.memory.hashTable b i) = x.entry := by
  have reachable := run.reachable
  have present := ((reachable_formed reachable).sound.stored x stored).1
  rcases (run_kept run).held x stored with gone | ⟨b,i,holds,-⟩
  · obtain ⟨y,member,same⟩ := List.mem_map.mp gone
    exact absurd same (untaken y member)
  · obtain ⟨bucket,slot⟩ := holder_slot reachable (holds ▸ present)
    exact ⟨b,i,bucket,slot,holds⟩

theorem moved_entry_kept : ∃ b i, b < 2 ∧ i < 4 ∧
    getRealPointer ((endState sampleConfig movingSchedule).memory.hashTable b i) = 2 := by
  have stored : (⟨0,keyA,2,0,0⟩ : Transfer) ∈
      (endState sampleConfig movingSchedule).memory.stored := by decide +kernel
  exact entries_never_lost (endState_run _ movingSchedule (by decide +kernel)) stored
    (by decide +kernel)

/-- Thread 0 has seen the destination of `a` empty; before it marks the source, thread
1 removes `a` and stores `f` in that slot. Thread 0 then marks `f`, whose alternative
bucket is its own, and takes it for a relocation that another thread completed. -/
def replacedSchedule : List (Nat × Action) :=
  inserts 0 keyA 2 2 ++ inserts 0 keyF 4 4 ++ inserts 0 keyF 6 6 ++ inserts 0 keyF 8 8 ++
    inserts 0 keyF 10 8 ++ [(0,.shuffle [0,1,2,3])] ++ runs 0 5 ++
    [(1,.invoke (.remove keyA))] ++ runs 1 3 ++ inserts 1 keyF 12 2 ++ runs 0 7

theorem entry_erased : ∃ s, Reachable sampleConfig s ∧ ⟨1,keyF,12,0,0⟩ ∈ s.memory.stored ∧
    (∀ y ∈ s.memory.removed, y.entry ≠ 12) ∧
    ¬∃ b i, b < sampleConfig.tableSize ∧ i < numItemsPerEntry ∧
      getRealPointer (s.memory.hashTable b i) = 12 := by
  refine ⟨endState sampleConfig replacedSchedule,endState_reachable _ _,?_,?_,?_⟩
  · decide +kernel
  · decide +kernel
  · have gone : ∀ b < 2, ∀ i < 4, getRealPointer
        ((endState sampleConfig replacedSchedule).memory.hashTable b i) ≠ 12 := by decide +kernel
    rintro ⟨b,i,bucket,slot,holds⟩
    exact gone b bucket i slot holds

end CuckooFilter.LockFree
