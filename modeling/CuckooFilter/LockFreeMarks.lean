import CuckooFilter.LockFreeRange

/-! Who clears a mark. A marked slot has a thread in charge: the initiator on its way
to the last compare-and-swap, or any thread about to clear the source after its copy.
Lines 413 to 425 let an initiator leave without touching the source, since both of
their compare-and-swaps go to the destination. -/
namespace CuckooFilter.LockFree

def HelpFrame.source? (f : HelpFrame) : Option TablePointer :=
  match f.pc with
  | .deref ptr1 | .readDest ptr1 _ | .recheckSource ptr1 _ _ | .copyCas ptr1 _ _
  | .clearCas ptr1 _ | .sameCas ptr1 _ | .failCas ptr1 _ => some ptr1
  | .readSource | .markCas _ | .rereadSource => none

/-- The frame relocates the word from the slot and will not leave the mark behind on
its regular path. -/
def HelpFrame.Charge (f : HelpFrame) (b i : Nat) (word : TablePointer) : Prop :=
  f.tableIdx = b ∧ f.slotIdx = i ∧
    (f.initiator = true ∧ (f.pc = .rereadSource ∨ f.source? = some word) ∨
      ∃ newHash, f.pc = .clearCas word newHash)

def InCharge (s : System) (tid b i : Nat) (word : TablePointer) : Prop :=
  ∃ f, (s.control tid).help? = some f ∧ f.Charge b i word

/-- Every mark has a thread in charge of it. -/
def Charged (s : System) : Prop :=
  ∀ b i, getMarked (s.memory.hashTable b i) = true →
    ∃ tid, InCharge s tid b i (s.memory.hashTable b i)

def HelpFrame.GivesUp (f : HelpFrame) (ptr1 : TablePointer) : Prop :=
  (∃ newHash, f.pc = .sameCas ptr1 newHash ∧ newHash ≠ f.tableIdx) ∨
    ∃ newHash, f.pc = .failCas ptr1 newHash

/-- Line 424 is about to put a mark into the destination, or an initiator gives up a
source that is still marked, with no other thread in charge of it. -/
def LeavesMark (tid : Nat) (s : System) : Prop :=
  ∃ f ptr1, (s.control tid).help? = some f ∧
    ((∃ newHash, f.pc = .failCas ptr1 newHash ∧ s.memory.hashTable newHash f.slotIdx = ptr1) ∨
      f.initiator = true ∧ f.GivesUp ptr1 ∧ s.memory.hashTable f.tableIdx f.slotIdx = ptr1 ∧
        ∀ other, other ≠ tid → ¬InCharge s other f.tableIdx f.slotIdx ptr1)

theorem charged_initial : Charged System.initial := by
  intro b i marked
  simp [System.initial,Memory.initial] at marked

theorem occupied_source (f : HelpFrame) (ptr1 : TablePointer) (p : Address) (newHash : Nat) :
    (f.occupied ptr1 p newHash).source? = some ptr1 := by
  unfold HelpFrame.occupied
  split <;> rfl

/-- A frame keeps working on a source word that stays in its slot, or it is in lines
413 to 425. -/
theorem source_step {f : HelpFrame} (source : f.source? = some (m.hashTable f.tableIdx f.slotIdx))
    (marked : getMarked (m.hashTable f.tableIdx f.slotIdx) = true)
    (stepped : HelpStep cfg m f next flow)
    (same : next.hashTable f.tableIdx f.slotIdx = m.hashTable f.tableIdx f.slotIdx) :
    (∃ after, flow = .running after ∧
      after.source? = some (m.hashTable f.tableIdx f.slotIdx)) ∨
    f.GivesUp (m.hashTable f.tableIdx f.slotIdx) := by
  have erased {word : TablePointer} {counter : Nat}
      (created : createPointer counter 0 false = some word)
      (now : m.hashTable f.tableIdx f.slotIdx = word) : False := by
    have unmarked := createPointer_marked created null_fits
    rw [← now,marked] at unmarked
    contradiction
  cases stepped with
  | abort => exact .inl ⟨f,rfl,source⟩
  | loadMarked => exact .inl ⟨_,rfl,rfl⟩
  | loadUnmarked _ _ unmarked => rw [unmarked] at marked; contradiction
  | nothing _ _ unmarked => rw [unmarked] at marked; contradiction
  | mark pc => simp [HelpFrame.source?,pc] at source
  | markLost pc => simp [HelpFrame.source?,pc] at source
  | follow pc | vacant pc | confirm pc | copy pc =>
    simp only [HelpFrame.source?,pc] at source
    exact .inl ⟨_,rfl,source⟩
  | filled pc | copyLost pc =>
    simp only [HelpFrame.source?,pc] at source
    exact .inl ⟨_,rfl,(occupied_source _ _ _ _).trans source⟩
  | retry pc changed =>
    simp only [HelpFrame.source?,pc,Option.some.injEq] at source
    exact absurd source.symm changed
  | clear pc created found memory =>
    rw [memory,Memory.write_table,if_pos ⟨rfl,rfl⟩] at same
    exact (erased created same.symm).elim
  | clearLost pc changed =>
    simp only [HelpFrame.source?,pc,Option.some.injEq] at source
    exact absurd source.symm changed
  | complete pc created found memory =>
    simp only [HelpFrame.source?,pc,Option.some.injEq] at source
    refine .inr (.inl ⟨_,source ▸ pc,?_⟩)
    rintro rfl
    rw [memory,Memory.recordRaise_table,Memory.write_table,if_pos ⟨rfl,rfl⟩] at same
    exact erased created same.symm
  | completeLost pc changed =>
    simp only [HelpFrame.source?,pc,Option.some.injEq] at source
    refine .inr (.inl ⟨_,source ▸ pc,?_⟩)
    rintro rfl
    exact changed source.symm
  | rollBack pc | rollBackLost pc =>
    simp only [HelpFrame.source?,pc,Option.some.injEq] at source
    exact .inr (.inr ⟨_,source ▸ pc⟩)

/-- A thread in charge stays in charge of a word that stays in its slot, or gives it
up as its initiator. -/
theorem charge_step {f : HelpFrame} (charge : f.Charge b i (m.hashTable b i))
    (marked : getMarked (m.hashTable b i) = true) (stepped : HelpStep cfg m f next flow)
    (same : next.hashTable b i = m.hashTable b i) :
    (∃ after, flow = .running after ∧ after.Charge b i (m.hashTable b i)) ∨
    f.initiator = true ∧ f.GivesUp (m.hashTable b i) := by
  obtain ⟨rfl,rfl,role⟩ := charge
  rcases role with ⟨initiator,reread | source⟩ | ⟨newHash,clearing⟩
  · cases stepped with
    | abort => exact .inl ⟨f,rfl,rfl,rfl,.inl ⟨initiator,.inl reread⟩⟩
    | loadMarked => exact .inl ⟨_,rfl,rfl,rfl,.inl ⟨initiator,.inr rfl⟩⟩
    | loadUnmarked _ _ unmarked => rw [unmarked] at marked; contradiction
    | nothing _ _ unmarked => rw [unmarked] at marked; contradiction
    | _ pc => rw [reread] at pc; contradiction
  · rcases source_step source marked stepped same with ⟨after,rfl,going⟩ | gives
    · obtain ⟨table,slot,kept⟩ := helpStep_site stepped
      exact .inl ⟨after,rfl,table,slot,.inl ⟨kept.trans initiator,.inr going⟩⟩
    · exact .inr ⟨initiator,gives⟩
  · cases stepped with
    | abort => exact .inl ⟨f,rfl,rfl,rfl,.inr ⟨newHash,clearing⟩⟩
    | loadMarked entry => simp [clearing] at entry
    | loadUnmarked entry => simp [clearing] at entry
    | nothing entry => simp [clearing] at entry
    | clear pc created found memory =>
      have emptied := createPointer_marked created null_fits
      rw [memory,Memory.write_table,if_pos ⟨rfl,rfl⟩] at same
      rw [same,marked] at emptied
      contradiction
    | clearLost pc changed =>
      cases pc.symm.trans clearing
      exact absurd rfl changed
    | _ pc => rw [clearing] at pc; contradiction

theorem mark_charges (formed : Formed cfg s) (moved : StepBy cfg tid s t)
    (inside : (s.control tid).help? = some f) (pc : f.pc = .markCas ptr1) (word : TablePointer) :
    InCharge t tid f.tableIdx f.slotIdx word := by
  have shape := formed.help tid f inside
  simp only [HelpFrame.Formed,pc] at shape
  cases help_outcome moved inside with
  | inside now stepped =>
    cases stepped with
    | mark => exact ⟨_,now,rfl,rfl,.inl ⟨shape.1,.inl rfl⟩⟩
    | markLost => exact ⟨_,now,rfl,rfl,.inl ⟨shape.1,.inl rfl⟩⟩
    | abort request => simp [HelpFrame.counterRequest,pc] at request
    | loadMarked entry => simp [pc] at entry
    | loadUnmarked entry => simp [pc] at entry
    | _ entry => rw [pc] at entry; contradiction
  | left now stepped =>
    cases stepped with
    | nothing entry => simp [pc] at entry
    | _ entry => rw [pc] at entry; contradiction

theorem charged_step (formed : Formed cfg s) (charged : Charged s) (moved : StepBy cfg tid s t)
    (condition : ¬LeavesMark tid s) : Charged t := by
  intro b i marked
  by_cases same : t.memory.hashTable b i = s.memory.hashTable b i
  · rw [same] at marked ⊢
    obtain ⟨owner,f,inside,charge⟩ := charged b i marked
    by_cases own : owner = tid
    · subst owner
      -- The thread in charge moves: it stays in charge, or it gives up and another one is.
      have hands (gives : f.initiator = true ∧ f.GivesUp (s.memory.hashTable b i)) :
          ∃ other, InCharge t other b i (s.memory.hashTable b i) := by
        obtain ⟨rfl,rfl,-⟩ := charge
        by_contra alone
        refine condition ⟨f,_,inside,.inr ⟨gives.1,gives.2,rfl,?_⟩⟩
        intro other different ⟨g,going,charge'⟩
        exact alone ⟨other,g,by rw [stepBy_other moved different]; exact going,charge'⟩
      cases help_outcome moved inside with
      | inside now stepped =>
        rcases charge_step charge marked stepped same with ⟨after,running,stays⟩ | gives
        · cases running
          exact ⟨tid,_,now,stays⟩
        · exact hands gives
      | left now stepped quiet =>
        rw [quiet.table] at same
        rcases charge_step charge marked stepped same with ⟨after,running,-⟩ | gives
        · contradiction
        · exact hands gives
    · exact ⟨owner,f,by rw [stepBy_other moved own]; exact inside,charge⟩
  · have plain {counter : Nat} {p : Address} (fits : Fits p)
        (created : createPointer counter p false = some (t.memory.hashTable b i)) : False := by
      have unmarked := createPointer_marked created fits
      rw [marked] at unmarked
      contradiction
    cases threadStep_slot (stepBy_thread moved) b i with
    | kept unchanged => exact absurd unchanged same
    | @store frame second ptr1 site pc bucket found created =>
      have own : (s.control tid).unstored? = some frame.newEntry := by
        simp [site,Control.unstored?,pc]
      exact (plain (sound_known formed.sound own) created).elim
    | take _ _ _ _ _ created => exact (plain null_fits created).elim
    | mark inside pc bucket slot =>
      subst bucket slot
      exact ⟨tid,mark_charges formed moved inside pc _⟩
    | copy _ _ _ _ created => exact (plain (getRealPointer_fits _) created).elim
    | clear _ _ _ _ _ created => exact (plain null_fits created).elim
    | complete _ _ _ _ created => exact (plain null_fits created).elim
    | @rollBack f ptr1 inside pc slot found =>
      exact absurd ⟨f,ptr1,inside,.inl ⟨b,pc,slot ▸ found⟩⟩ condition

/-- While no step leaves a mark without a thread in charge, a state in which every
operation is over has no marked slot. -/
theorem no_mark_left (run : Run cfg (fun tid s => ¬LeavesMark tid s) System.initial s)
    (finished : ∀ tid, s.control tid = .idle) (b i : Nat) :
    getMarked (s.memory.hashTable b i) = false := by
  have both := Transition.run_invariant (fun s => Formed cfg s ∧ Charged s)
    (fun _ _ ⟨formed,charged⟩ ⟨_,condition,moved⟩ =>
      ⟨formed_step formed moved,charged_step formed charged moved condition⟩)
    ⟨formed_initial cfg,charged_initial⟩ run
  rw [← Bool.not_eq_true]
  intro marked
  obtain ⟨tid,f,inside,-⟩ := both.2 b i marked
  rw [finished tid] at inside
  contradiction

/-- A thread before one of the last compare-and-swaps of lines 413 to 425. -/
def AtGivingUp (tid : Nat) (s : System) : Bool :=
  match (s.control tid).help? with
  | none => false
  | some f =>
    match f.pc with
    | .sameCas _ _ | .failCas _ _ => true
    | _ => false

theorem leavesMark_givingUp (leaves : LeavesMark tid s) : AtGivingUp tid s = true := by
  obtain ⟨f,ptr1,inside,⟨newHash,pc,-⟩ | ⟨-,⟨newHash,pc,-⟩ | ⟨newHash,pc⟩,-⟩⟩ := leaves
  all_goals simp [AtGivingUp,inside,pc]

theorem regular_run (run : Run cfg (fun tid s => AtGivingUp tid s = false) System.initial s) :
    Run cfg (fun tid s => ¬LeavesMark tid s) System.initial s := by
  refine run.weaken ?_
  intro tid s regular leaves
  rw [leavesMark_givingUp leaves] at regular
  contradiction

theorem moved_entry_unmarked :
    getMarked ((endState sampleConfig movingSchedule).memory.hashTable 1 0) = false := by
  have idle (tid : Nat) : (endState sampleConfig movingSchedule).control tid = .idle :=
    endState_idle _ _ (n := 1) (by decide) (by decide +kernel) tid
  exact no_mark_left (regular_run (endState_run _ movingSchedule (by decide +kernel))) idle 1 0

/-- Thread 2 is about to take a `c` out of bucket 1 when thread 0 marks `a` there;
thread 1 fills the destination with `f` before thread 0 reads it. -/
def crowdedSchedule : List (Nat × Action) :=
  inserts 0 keyF 2 2 ++ inserts 0 keyA 4 3 ++ inserts 0 keyC 6 4 ++ inserts 0 keyC 8 6 ++
    inserts 0 keyC 10 8 ++ [(0,.invoke (.remove keyF))] ++ runs 0 3 ++ inserts 0 keyC 12 8 ++
    [(0,.shuffle [0,1,2,3])] ++ runs 0 7 ++ [(2,.invoke (.remove keyC))] ++ runs 2 8 ++
    runs 0 3 ++ inserts 1 keyF 14 2 ++ runs 0 2 ++ runs 2 1 ++ runs 0 4

theorem mark_left : ∃ s, Reachable sampleConfig s ∧ (∀ tid, s.control tid = .idle) ∧
    getMarked (s.memory.hashTable 1 0) = true := by
  refine ⟨endState sampleConfig crowdedSchedule,endState_reachable _ _,?_,?_⟩
  · exact endState_idle _ _ (n := 3) (by decide) (by decide +kernel)
  · decide +kernel

end CuckooFilter.LockFree
