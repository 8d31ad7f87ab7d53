import CuckooFilter.LockFreeEntry

/-! What the words in slots and in threads look like: a mark never stands on an
empty slot, and each control point holds the outcome of the tests that led to it. -/
namespace CuckooFilter.LockFree

/-- A word that can be relocated: marked, with an entry. -/
def Relocating (word : TablePointer) : Prop := getMarked word = true ∧ getRealPointer word ≠ 0

/-- The bucket the entry of `ptr1` moves to. -/
def HelpFrame.target (cfg : Config) (m : Memory) (f : HelpFrame) (ptr1 : TablePointer) : Nat :=
  getNextHashIndex cfg.tableSize f.tableIdx (m.str (getRealPointer ptr1))

def HelpFrame.Formed (cfg : Config) (m : Memory) (f : HelpFrame) : Prop :=
  match f.pc with
  | .readSource => True
  | .rereadSource => f.initiator = true
  | .markCas ptr1 => f.initiator = true ∧ getRealPointer ptr1 ≠ 0 ∧ getMarked ptr1 = false
  | .deref ptr1 => Relocating ptr1
  | .readDest ptr1 newHash | .clearCas ptr1 newHash | .sameCas ptr1 newHash
  | .failCas ptr1 newHash => Relocating ptr1 ∧ newHash = f.target cfg m ptr1
  | .recheckSource ptr1 ptr2 newHash | .copyCas ptr1 ptr2 newHash =>
    Relocating ptr1 ∧ newHash = f.target cfg m ptr1 ∧ getRealPointer ptr2 = 0

theorem occupied_formed {f : HelpFrame} (moving : Relocating ptr1)
    (aimed : newHash = f.target cfg m ptr1) : (f.occupied ptr1 p newHash).Formed cfg m := by
  unfold HelpFrame.occupied
  split <;> exact ⟨moving,aimed⟩

theorem helpStep_formed (marks : ∀ b i, getMarked (m.hashTable b i) = true →
      getRealPointer (m.hashTable b i) ≠ 0) (formed : f.Formed cfg m)
    (stepped : HelpStep cfg m f next (.running after)) : after.Formed cfg m := by
  cases stepped with
  | abort => exact formed
  | loadMarked _ _ marked => exact ⟨marked,marks _ _ marked⟩
  | loadUnmarked _ _ unmarked initiator occupied => exact ⟨initiator,occupied,unmarked⟩
  | retry => trivial
  | mark pc =>
    simp only [HelpFrame.Formed,pc] at formed
    exact formed.1
  | markLost pc =>
    simp only [HelpFrame.Formed,pc] at formed
    exact formed.1
  | follow pc =>
    simp only [HelpFrame.Formed,pc] at formed
    exact ⟨formed,rfl⟩
  | vacant pc _ empty =>
    simp only [HelpFrame.Formed,pc] at formed
    exact ⟨formed.1,formed.2,empty⟩
  | filled pc =>
    simp only [HelpFrame.Formed,pc] at formed
    exact occupied_formed formed.1 formed.2
  | confirm pc =>
    simp only [HelpFrame.Formed,pc] at formed
    exact formed
  | copy pc =>
    simp only [HelpFrame.Formed,pc] at formed
    exact ⟨formed.1,formed.2.1⟩
  | copyLost pc =>
    simp only [HelpFrame.Formed,pc] at formed
    exact occupied_formed formed.1 formed.2.1

/-- A frame's shape depends on memory through the strings of the words it remembers. -/
theorem HelpFrame.Formed.transfer {f : HelpFrame} (formed : f.Formed cfg m)
    (strings : ∀ cell ∈ f.held, getRealPointer cell.word ≠ 0 →
      next.str (getRealPointer cell.word) = m.str (getRealPointer cell.word)) :
    f.Formed cfg next := by
  have same (word : TablePointer) (moving : Relocating word)
      (held : ⟨f.tableIdx,f.slotIdx,word⟩ ∈ f.held) :
      f.target cfg next word = f.target cfg m word := by
    simp only [HelpFrame.target,strings _ held moving.2]
  cases pc : f.pc with
  | readSource => simp only [HelpFrame.Formed,pc]
  | rereadSource | markCas ptr1 | deref ptr1 =>
    simp only [HelpFrame.Formed,pc] at formed ⊢
    exact formed
  | readDest ptr1 newHash | clearCas ptr1 newHash | sameCas ptr1 newHash | failCas ptr1 newHash =>
    simp only [HelpFrame.Formed,pc] at formed ⊢
    rw [same ptr1 formed.1 (by simp [HelpFrame.held,pc])]
    exact formed
  | recheckSource ptr1 ptr2 newHash | copyCas ptr1 ptr2 newHash =>
    simp only [HelpFrame.Formed,pc] at formed ⊢
    rw [same ptr1 formed.1 (by simp [HelpFrame.held,pc])]
    exact formed

/-- A word is compared with the key only when it is unmarked and has an entry. -/
def FindFrame.Compares (f : FindFrame) : Prop :=
  match f.pc with
  | .compareFirst ptr | .compareSecond _ ptr => getRealPointer ptr ≠ 0 ∧ getMarked ptr = false
  | _ => True

def Control.Formed (cfg : Config) (m : Memory) : Control → Prop
  | .idle => True
  | .insert frame => ∀ i second ptr1, frame.pc = .store i second ptr1 → getRealPointer ptr1 = 0
  | .find _ frame => frame.Compares
  | .remove frame => (∀ search, frame.find? = some search → search.Compares) ∧
      ∀ location ptr1, frame.pc = .cas location ptr1 → getRealPointer ptr1 ≠ 0 ∧
        getMarked ptr1 = false ∧ m.str (getRealPointer ptr1) = cfg.md5Fingerprint frame.key

theorem find_compares (running : (find cfg tid m f).2 = .running after) : after.Compares := by
  cases pc : f.pc with
  | readFirst =>
    simp only [find,pc] at running
    split at running
    · cases running; trivial
    · rename_i present
      split at running
      · cases running; trivial
      · rename_i unmarked
        cases running
        exact ⟨present,Bool.eq_false_iff.mpr unmarked⟩
  | readSecond ts1 =>
    simp only [find,pc] at running
    split at running
    · cases running; trivial
    · rename_i present
      split at running
      · cases running; trivial
      · rename_i unmarked
        cases running
        exact ⟨present,Bool.eq_false_iff.mpr unmarked⟩
  | help frame =>
    simp only [find,pc] at running
    split at running <;> cases running <;> trivial
  | recheckSecond ts1 ts2 ts1x =>
    simp only [find,pc,FindFrame.nextSlot] at running
    repeat' split at running
    all_goals first
      | contradiction
      | (cases running; trivial)
  | _ =>
    simp only [find,pc] at running
    repeat' split at running
    all_goals first
      | contradiction
      | (cases running; trivial)

theorem nextProbe_no_store (f : InsertFrame) (i : Nat) (second foundEmpty : Bool) :
    (f.nextProbe i second foundEmpty).pc ≠ .store j side ptr1 := by
  unfold InsertFrame.nextProbe
  repeat' split
  all_goals simp [InsertFrame.goto]

theorem advance_insert_formed (cfg : Config) (tid : Nat) (m : Memory) (f : InsertFrame)
    (formed : (Control.insert f).Formed cfg m) :
    (advance cfg tid m (.insert f)).2.Formed cfg m := by
  have probe (i : Nat) (b e : Bool) : (Control.insert (f.nextProbe i b e)).Formed cfg m :=
    fun _ _ _ pc => absurd pc (nextProbe_no_store f i b e)
  cases pc : f.pc with
  | allocate | shuffle =>
    simp only [advance,insert,pc]
    exact formed
  | probe i second foundEmpty =>
    simp only [advance,insert,pc]
    by_cases empty : getRealPointer (m.hashTable (f.bucket second) i) = 0
    · simp only [empty,if_true]
      rintro _ _ _ ⟨⟩
      exact empty
    · simp only [empty,if_false]
      exact probe _ _ _
  | store i second ptr1 =>
    simp only [advance,insert,pc]
    cases createPointer (getCounter ptr1) f.newEntry false with
    | none => exact formed
    | some word =>
      by_cases found : m.hashTable (f.bucket second) i = ptr1
      · simp only [Memory.compareAndSwap,found,if_true]
        trivial
      · simp only [Memory.compareAndSwap,found,if_false]
        exact probe _ _ _
  | kick rest frame =>
    simp only [advance,insert,pc]
    cases relocate cfg tid m frame with | mk next result =>
    cases result with
    | running after => rintro _ _ _ ⟨⟩
    | returned result =>
      cases result with
      | true => rintro _ _ _ ⟨⟩
      | false =>
        cases rest with
        | nil => trivial
        | cons kickSlot rest => rintro _ _ _ ⟨⟩

theorem advance_remove_formed (cfg : Config) (tid : Nat) (m : Memory) (f : RemoveFrame)
    (keyed : (Control.remove f).Keyed cfg) (formed : (Control.remove f).Formed cfg m) :
    (advance cfg tid m (.remove f)).2.Formed cfg m := by
  cases pc : f.pc with
  | find search =>
    have own := keyed.2.2 search (by simp [RemoveFrame.find?,pc])
    have compares := formed.1 search (by simp [RemoveFrame.find?,pc])
    simp only [advance,remove,pc]
    cases flow : find cfg tid m search with | mk next result =>
    cases result with
    | running after =>
      refine ⟨?_,by simp [RemoveFrame.goto]⟩
      rintro _ ⟨⟩
      exact find_compares (by rw [flow])
    | returned result =>
      obtain ⟨location,ptr⟩ := result
      by_cases missing : location = numItemsPerEntry * 2
      · simp only [missing,if_true]
        trivial
      · simp only [missing,if_false]
        refine ⟨by simp [RemoveFrame.find?,RemoveFrame.goto],?_⟩
        rintro _ _ ⟨⟩
        rcases find_result (by rw [flow]) with
          ⟨-,ptr1,at_first,rfl,same⟩ | ⟨-,ts1,ptr2,at_second,rfl,same⟩ | ⟨ended,-⟩
        · rw [FindFrame.Compares,at_first] at compares
          exact ⟨compares.1,compares.2,same.symm.trans own.1⟩
        · rw [FindFrame.Compares,at_second] at compares
          exact ⟨compares.1,compares.2,same.symm.trans own.1⟩
        · exact absurd ended missing
  | cas location ptr1 =>
    simp only [advance,remove,pc]
    cases createPointer (getCounter ptr1) 0 false with
    | none => exact formed
    | some word =>
      by_cases found :
          m.hashTable (f.hashVal location) (location % numItemsPerEntry) = ptr1
      · simp only [Memory.compareAndSwap,found,if_true]
        trivial
      · simp only [Memory.compareAndSwap,found,if_false]
        refine ⟨?_,by simp [RemoveFrame.goto]⟩
        rintro _ ⟨⟩
        trivial

theorem threadStep_formed (keyed : before.Keyed cfg) (formed : before.Formed cfg m)
    (stepped : threadStep cfg tid m before action = some (next,after)) : after.Formed cfg m := by
  cases threadStep_move stepped with
  | invoke call =>
    cases call with
    | insert key => rintro _ _ _ ⟨⟩
    | find key => trivial
    | remove key =>
      refine ⟨?_,by simp [RemoveFrame.enter]⟩
      rintro _ ⟨⟩
      trivial
  | allocate | shuffle => rintro _ _ _ ⟨⟩
  | insert frame => exact advance_insert_formed cfg tid m frame formed
  | find key frame =>
    simp only [advance]
    cases flow : find cfg tid m frame with | mk next result =>
    cases result with
    | running after => exact find_compares (by rw [flow])
    | returned result => trivial
  | remove frame => exact advance_remove_formed cfg tid m frame keyed formed

structure Formed (cfg : Config) (s : System) : Prop where
  sound : Sound cfg s
  marked : ∀ b i, getMarked (s.memory.hashTable b i) = true →
    getRealPointer (s.memory.hashTable b i) ≠ 0
  help : ∀ tid f, (s.control tid).help? = some f → f.Formed cfg s.memory
  control : ∀ tid, (s.control tid).Formed cfg s.memory

theorem formed_initial (cfg : Config) : Formed cfg System.initial := by
  refine ⟨sound_initial cfg,?_,?_,?_⟩
  · simp [System.initial,Memory.initial]
  · simp [System.initial,Control.help?]
  · intro tid; trivial

theorem str_step (moved : StepBy cfg tid s t) (allocated : s.memory.heap entry ≠ none) :
    t.memory.str entry = s.memory.str entry := by
  simp only [Memory.str,threadStep_heap (stepBy_thread moved) allocated]

theorem str_cell_step (sound : Sound cfg s) (moved : StepBy cfg tid s t) {other : Nat} {cell : Cell}
    (member : cell ∈ (t.control other).held) (present : getRealPointer cell.word ≠ 0) :
    t.memory.str (getRealPointer cell.word) = s.memory.str (getRealPointer cell.word) := by
  rcases cell_step sound moved member with known | read
  · exact str_step moved (sound.cells other cell known present)
  · rw [← read] at present ⊢
    exact str_step moved (sound.slots _ _ present)

theorem help_formed_step (formed : Formed cfg s) (moved : StepBy cfg tid s t) {other : Nat}
    (inside : (t.control other).help? = some f) : f.Formed cfg s.memory := by
  cases help_origin moved inside with
  | kept _ was => exact formed.help other f was
  | called _ entry => subst entry; trivial
  | inside _ was stepped => exact helpStep_formed formed.marked (formed.help tid _ was) stepped

theorem marked_step (formed : Formed cfg s) (moved : StepBy cfg tid s t)
    (marked : getMarked (t.memory.hashTable b i) = true) :
    getRealPointer (t.memory.hashTable b i) ≠ 0 := by
  cases threadStep_slot (stepBy_thread moved) b i with
  | kept same => rw [same] at marked ⊢; exact formed.marked b i marked
  | @store frame second ptr1 site pc bucket found created =>
    have own : (s.control tid).unstored? = some frame.newEntry := by
      simp [site,Control.unstored?,pc]
    rw [createPointer_marked created (sound_known formed.sound own)] at marked
    contradiction
  | take site pc bucket slot found created =>
    rw [createPointer_marked created null_fits] at marked
    contradiction
  | mark inside pc bucket slot found same =>
    have shape := formed.help tid _ inside
    simp only [HelpFrame.Formed,pc] at shape
    rw [same,getNewMark_real]
    exact shape.2.1
  | copy inside pc slot found created =>
    rw [createPointer_marked created (getRealPointer_fits _)] at marked
    contradiction
  | clear inside pc bucket slot found created =>
    rw [createPointer_marked created null_fits] at marked
    contradiction
  | complete inside pc slot found created =>
    rw [createPointer_marked created null_fits] at marked
    contradiction
  | rollBack inside pc slot found created =>
    have shape := formed.help tid _ inside
    simp only [HelpFrame.Formed,pc] at shape
    rw [createPointer_real created (getRealPointer_fits _)]
    exact shape.1.2

theorem formed_step (formed : Formed cfg s) (moved : StepBy cfg tid s t) : Formed cfg t := by
  have sound := sound_step formed.sound moved
  obtain ⟨-,⟨action,raw⟩,-⟩ := stepBy_cases moved
  refine ⟨sound,fun _ _ => marked_step formed moved,?_,?_⟩
  · intro other f inside
    refine (help_formed_step formed moved inside).transfer ?_
    intro cell member present
    exact str_cell_step formed.sound moved (help_held inside ▸ member) present
  · intro other
    have shape : (t.control other).Formed cfg s.memory := by
      by_cases same : other = tid
      · subst other
        exact threadStep_formed (formed.sound.keyed tid) (formed.control tid) raw
      · rw [stepBy_other moved same]
        exact formed.control other
    cases site : t.control other with
    | remove frame =>
      rw [site] at shape
      refine ⟨shape.1,?_⟩
      intro location ptr1 pc
      obtain ⟨present,unmarked,string⟩ := shape.2 location ptr1 pc
      have member : ⟨frame.hashVal location,location % numItemsPerEntry,ptr1⟩ ∈
          (t.control other).held := by simp [site,Control.held,RemoveFrame.held,pc]
      exact ⟨present,unmarked,(str_cell_step formed.sound moved member present).trans string⟩
    | _ => rw [site] at shape; exact shape

theorem reachable_formed (reachable : Reachable cfg s) : Formed cfg s :=
  Transition.run_invariant (Formed cfg) (fun _ _ formed ⟨_,_,moved⟩ => formed_step formed moved)
    (formed_initial cfg) reachable

end CuckooFilter.LockFree
