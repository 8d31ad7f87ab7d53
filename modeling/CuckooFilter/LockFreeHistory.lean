import CuckooFilter.LockFreeRun

/-! Responses and histories: an insertion answers true in the step that stores its
entry, a removal in the step that takes an entry and retires it, and nothing else is
recorded. -/
namespace CuckooFilter.LockFree

/-- No history field and no retired list changed. -/
structure Silent (m next : Memory) : Prop where
  returned : next.returned = m.returned
  stored : next.stored = m.stored
  removed : next.removed = m.removed
  retired : next.retiredPtrs = m.retiredPtrs

@[simp] theorem Silent.refl (m : Memory) : Silent m m := ⟨rfl,rfl,rfl,rfl⟩

theorem Silent.respond (same : Silent m next) (tid : Nat) (call : Call) (response : Response) :
    (next.respond tid call response).returned = (tid,call,response) :: m.returned :=
  congrArg _ same.returned

theorem compareAndSwap_silent (m : Memory) (b i : Nat) (expected word : TablePointer) :
    Silent m (m.compareAndSwap b i expected word).1 := by
  unfold Memory.compareAndSwap
  split <;> exact ⟨rfl,rfl,rfl,rfl⟩

theorem helpRelocate_silent (cfg : Config) (tid : Nat) (m : Memory) (f : HelpFrame) :
    Silent m (helpRelocate cfg tid m f).1 := by
  cases pc : f.pc with
  | markCas ptr1 =>
    simp only [helpRelocate,pc]
    exact compareAndSwap_silent _ _ _ _ _
  | copyCas ptr1 ptr2 newHash =>
    simp only [helpRelocate,pc]
    cases createPointer (raisedCounter ptr1 ptr2) (getRealPointer ptr1) false with
    | none => exact ⟨rfl,rfl,rfl,rfl⟩
    | some word =>
      by_cases found : m.hashTable newHash f.slotIdx = ptr2
      · simp only [Memory.compareAndSwap,found,if_true]; exact ⟨rfl,rfl,rfl,rfl⟩
      · simp only [Memory.compareAndSwap,found,if_false]; exact .refl m
  | clearCas ptr1 newHash =>
    simp only [helpRelocate,pc]
    split
    · exact ⟨rfl,rfl,rfl,rfl⟩
    · exact compareAndSwap_silent _ _ _ _ _
  | sameCas ptr1 newHash =>
    simp only [helpRelocate,pc]
    cases createPointer (getCounter ptr1 + 1) 0 false with
    | none => exact ⟨rfl,rfl,rfl,rfl⟩
    | some word =>
      by_cases found : m.hashTable newHash f.slotIdx = ptr1
      · simp only [Memory.compareAndSwap,found,if_true]; exact ⟨rfl,rfl,rfl,rfl⟩
      · simp only [Memory.compareAndSwap,found,if_false]; exact .refl m
  | failCas ptr1 newHash =>
    simp only [helpRelocate,pc]
    cases createPointer (getCounter ptr1 + 1) (getRealPointer ptr1) true with
    | none => exact ⟨rfl,rfl,rfl,rfl⟩
    | some word =>
      by_cases found : m.hashTable newHash f.slotIdx = ptr1
      · simp only [Memory.compareAndSwap,found,if_true]; exact ⟨rfl,rfl,rfl,rfl⟩
      · simp only [Memory.compareAndSwap,found,if_false]; exact .refl m
  | _ =>
    simp only [helpRelocate,pc]
    exact ⟨rfl,rfl,rfl,rfl⟩

theorem find_silent (cfg : Config) (tid : Nat) (m : Memory) (f : FindFrame) :
    Silent m (find cfg tid m f).1 := by
  cases pc : f.pc with
  | help frame =>
    have inner := helpRelocate_silent cfg tid m frame
    simp only [find,pc]
    cases flow : helpRelocate cfg tid m frame with | mk next result =>
    rw [flow] at inner
    cases result <;> exact inner
  | _ =>
    simp only [find,pc]
    repeat' split
    all_goals exact ⟨rfl,rfl,rfl,rfl⟩

theorem relocate_silent (cfg : Config) (tid : Nat) (m : Memory) (f : RelocateFrame) :
    Silent m (relocate cfg tid m f).1 := by
  cases pc : f.pc with
  | discoverHelp depth frame | traverseHelp depth i frame | traverseMove depth i frame =>
    have inner := helpRelocate_silent cfg tid m frame
    simp only [relocate,pc]
    cases flow : helpRelocate cfg tid m frame with | mk next result =>
    rw [flow] at inner
    cases result <;> exact inner
  | _ =>
    simp only [relocate,pc]
    repeat' split
    all_goals exact ⟨rfl,rfl,rfl,rfl⟩

/-- What one step records. -/
inductive Report (tid : Nat) (m next : Memory) : Prop where
  | silent (same : Silent m next) : Report tid m next
  | stored (transfer : Transfer)
      (returned : next.returned = (tid,.insert transfer.key,.truth true) :: m.returned)
      (stored : next.stored = transfer :: m.stored) (removed : next.removed = m.removed)
      (retired : next.retiredPtrs = m.retiredPtrs) : Report tid m next
  | removed (transfer : Transfer)
      (returned : next.returned = (tid,.remove transfer.key,.truth true) :: m.returned)
      (stored : next.stored = m.stored) (removed : next.removed = transfer :: m.removed)
      (retired : next.retiredPtrs = fun i =>
        if i = tid then m.retiredPtrs i ++ [transfer.entry] else m.retiredPtrs i) :
      Report tid m next
  | answered (call : Call) (response : Response)
      (returned : next.returned = (tid,call,response) :: m.returned)
      (inserted : ∀ key, call = .insert key → response = .truth false)
      (deleted : ∀ key, call = .remove key → response = .truth false)
      (stored : next.stored = m.stored) (removed : next.removed = m.removed)
      (retired : next.retiredPtrs = m.retiredPtrs) : Report tid m next

theorem insert_report (cfg : Config) (tid : Nat) (m : Memory) (f : InsertFrame) :
    Report tid m (advance cfg tid m (.insert f)).1 := by
  cases pc : f.pc with
  | allocate | shuffle =>
    simp only [advance,insert,pc]
    exact .silent (.refl m)
  | probe i second foundEmpty =>
    simp only [advance,insert,pc]
    by_cases empty : getRealPointer (m.hashTable (f.bucket second) i) = 0
    · simp only [empty,if_true]; exact .silent (.refl m)
    · simp only [empty,if_false]; exact .silent (.refl m)
  | store i second ptr1 =>
    simp only [advance,insert,pc]
    cases createPointer (getCounter ptr1) f.newEntry false with
    | none => exact .silent ⟨rfl,rfl,rfl,rfl⟩
    | some word =>
      by_cases found : m.hashTable (f.bucket second) i = ptr1
      · simp only [Memory.compareAndSwap,found,if_true]
        exact .stored ⟨tid,f.key,f.newEntry,f.bucket second,i⟩ rfl rfl rfl rfl
      · simp only [Memory.compareAndSwap,found,if_false]
        exact .silent (.refl m)
  | kick rest frame =>
    have inner := relocate_silent cfg tid m frame
    simp only [advance,insert,pc]
    cases flow : relocate cfg tid m frame with | mk next result =>
    rw [flow] at inner
    cases result with
    | running after => exact .silent inner
    | returned result =>
      cases result with
      | true => exact .silent inner
      | false =>
        cases rest with
        | nil =>
          exact .answered (.insert f.key) (.truth false) (inner.respond _ _ _) (fun _ _ => rfl)
            (fun _ _ => rfl) inner.stored inner.removed inner.retired
        | cons kickSlot rest => exact .silent inner

theorem remove_report (cfg : Config) (tid : Nat) (m : Memory) (f : RemoveFrame) :
    Report tid m (advance cfg tid m (.remove f)).1 := by
  cases pc : f.pc with
  | find frame =>
    have inner := find_silent cfg tid m frame
    simp only [advance,remove,pc]
    cases flow : find cfg tid m frame with | mk next result =>
    rw [flow] at inner
    cases result with
    | running after => exact .silent inner
    | returned result =>
      by_cases missing : result.1 = numItemsPerEntry * 2
      · simp only [missing,if_true]
        exact .answered (.remove f.key) (.truth false) (inner.respond _ _ _) (fun _ _ => rfl)
          (fun _ _ => rfl) inner.stored inner.removed inner.retired
      · simp only [missing,if_false]
        exact .silent inner
  | cas location ptr1 =>
    simp only [advance,remove,pc]
    cases createPointer (getCounter ptr1) 0 false with
    | none => exact .silent ⟨rfl,rfl,rfl,rfl⟩
    | some word =>
      by_cases found : m.hashTable (f.hashVal location) (location % numItemsPerEntry) = ptr1
      · simp only [Memory.compareAndSwap,found,if_true]
        exact .removed ⟨tid,f.key,getRealPointer ptr1,f.hashVal location,
          location % numItemsPerEntry⟩ rfl rfl rfl rfl
      · simp only [Memory.compareAndSwap,found,if_false]
        exact .silent ⟨rfl,rfl,rfl,rfl⟩

theorem threadStep_report (stepped : threadStep cfg tid m before action = some (next,after)) :
    Report tid m next := by
  cases threadStep_move stepped with
  | invoke call =>
    cases call with
    | _ key => exact .silent ⟨rfl,rfl,rfl,rfl⟩
  | allocate | shuffle => exact .silent ⟨rfl,rfl,rfl,rfl⟩
  | insert frame => exact insert_report cfg tid m frame
  | find key frame =>
    have inner := find_silent cfg tid m frame
    simp only [advance]
    cases flow : find cfg tid m frame with | mk next result =>
    rw [flow] at inner
    cases result with
    | running after => exact .silent inner
    | returned result =>
      exact .answered (.find key) (.location result.1) (inner.respond _ _ _) (by simp) (by simp)
        inner.stored inner.removed inner.retired
  | remove frame => exact remove_report cfg tid m frame

theorem step_report (moved : StepBy cfg tid s t) : Report tid s.memory t.memory := by
  obtain ⟨-,⟨action,raw⟩,-⟩ := stepBy_cases moved
  exact threadStep_report raw

/-- The key of an insertion that answered true. -/
def insertedKey : Nat × Call × Response → Option Bytes
  | (_,.insert key,.truth true) => some key
  | _ => none

def removedKey : Nat × Call × Response → Option Bytes
  | (_,.remove key,.truth true) => some key
  | _ => none

structure Answered (s : System) : Prop where
  inserted : s.memory.returned.filterMap insertedKey = s.memory.stored.map Transfer.key
  removed : s.memory.returned.filterMap removedKey = s.memory.removed.map Transfer.key
  retired : ∀ tid entry, entry ∈ s.memory.retiredPtrs tid →
    entry ∈ s.memory.removed.map Transfer.entry

theorem answered_initial : Answered System.initial := by
  constructor <;> simp [System.initial,Memory.initial]

theorem answered_step (answered : Answered s) (moved : StepBy cfg tid s t) : Answered t := by
  obtain ⟨inserted,removed,retired⟩ := answered
  cases step_report moved with
  | silent same =>
    rw [← same.returned,← same.stored] at inserted
    rw [← same.returned,← same.removed] at removed
    rw [← same.removed,← same.retired] at retired
    exact ⟨inserted,removed,retired⟩
  | stored transfer returned stored removed' retired' =>
    refine ⟨?_,?_,?_⟩
    · simp [returned,stored,insertedKey,inserted]
    · rw [returned,removed',List.filterMap_cons_none rfl,removed]
    · rw [removed',retired']; exact retired
  | removed transfer returned stored removed' retired' =>
    refine ⟨?_,?_,?_⟩
    · rw [returned,stored,List.filterMap_cons_none rfl,inserted]
    · simp [returned,removed',removedKey,removed]
    · intro other entry member
      rw [removed',List.map_cons]
      rw [retired'] at member
      by_cases same : other = tid
      · simp only [same,if_true] at member
        rcases List.mem_append.mp member with old | new
        · exact List.mem_cons_of_mem _ (retired tid entry old)
        · exact List.mem_singleton.mp new ▸ List.mem_cons_self
      · simp only [same,if_false] at member
        exact List.mem_cons_of_mem _ (retired other entry member)
  | answered call response returned insertFailed removeFailed stored removed' retired' =>
    have inserting : insertedKey (tid,call,response) = none := by
      cases call with
      | insert key => rw [insertFailed key rfl]; rfl
      | _ => rfl
    have removing : removedKey (tid,call,response) = none := by
      cases call with
      | remove key => rw [removeFailed key rfl]; rfl
      | _ => rfl
    refine ⟨?_,?_,?_⟩
    · simp [returned,stored,inserting,inserted]
    · simp [returned,removed',removing,removed]
    · rw [removed',retired']; exact retired

theorem reachable_answered (reachable : Reachable cfg s) : Answered s :=
  Transition.run_invariant Answered (fun _ _ answered ⟨_,_,moved⟩ => answered_step answered moved)
    answered_initial reachable

end CuckooFilter.LockFree
