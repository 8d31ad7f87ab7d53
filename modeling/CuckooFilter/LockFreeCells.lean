import CuckooFilter.LockFreeStep

/-! What a thread knows: the key its frame belongs to and the slot words it
remembers, each read from the slot it is remembered for. -/
namespace CuckooFilter.LockFree

/-- A search carries the hashes of its key and a slot index of the bucket. -/
def FindFrame.For (cfg : Config) (key : Bytes) (f : FindFrame) : Prop :=
  f.fingerprint = cfg.md5Fingerprint key ∧ f.hash1 = (FindFrame.enter cfg key).hash1 ∧
    f.hash2 = (FindFrame.enter cfg key).hash2 ∧ f.slot < numItemsPerEntry

/-- Each operation's frame carries the hashes of its own key. -/
def Control.Keyed (cfg : Config) : Control → Prop
  | .idle => True
  | .insert frame => frame.fingerprint = cfg.md5Fingerprint frame.key ∧
      frame.hash1 = (FindFrame.enter cfg frame.key).hash1 ∧
      frame.hash2 = (FindFrame.enter cfg frame.key).hash2
  | .find key frame => frame.For cfg key
  | .remove frame => frame.hash1 = (FindFrame.enter cfg frame.key).hash1 ∧
      frame.hash2 = (FindFrame.enter cfg frame.key).hash2 ∧
      ∀ search, frame.find? = some search → search.For cfg frame.key

theorem find_for (own : f.For cfg key) (running : (find cfg tid m f).2 = .running after) :
    after.For cfg key := by
  obtain ⟨fingerprint,first,second,bound⟩ := own
  cases pc : f.pc with
  | help frame =>
    simp only [find,pc] at running
    split at running <;> cases running <;> exact ⟨fingerprint,first,second,bound⟩
  | recheckSecond ts1 ts2 ts1x =>
    simp only [find,pc,FindFrame.nextSlot] at running
    repeat' split at running
    · cases running; exact ⟨fingerprint,first,second,bound⟩
    · rename_i inside
      cases running
      exact ⟨fingerprint,first,second,inside⟩
    · contradiction
  | _ =>
    simp only [find,pc] at running
    repeat' split at running
    all_goals first
      | contradiction
      | (cases running; exact ⟨fingerprint,first,second,bound⟩)

theorem enter_for (cfg : Config) (key : Bytes) : (FindFrame.enter cfg key).For cfg key :=
  ⟨rfl,rfl,rfl,by simp [FindFrame.enter,numItemsPerEntry]⟩

theorem advance_insert_keyed (cfg : Config) (tid : Nat) (m : Memory) (f : InsertFrame)
    (keyed : (Control.insert f).Keyed cfg) :
    (advance cfg tid m (.insert f)).2.Keyed cfg := by
  obtain ⟨fingerprint,first,second⟩ := keyed
  have stay (pc : InsertPc) : (Control.insert (f.goto pc)).Keyed cfg := ⟨fingerprint,first,second⟩
  have probe (i : Nat) (b e : Bool) : (Control.insert (f.nextProbe i b e)).Keyed cfg := by
    simpa [Control.Keyed] using ⟨fingerprint,first,second⟩
  cases pc : f.pc with
  | allocate | shuffle =>
    simp only [advance,insert,pc]
    exact ⟨fingerprint,first,second⟩
  | probe i second foundEmpty =>
    simp only [advance,insert,pc]
    by_cases empty : getRealPointer (m.hashTable (f.bucket second) i) = 0
    · simp only [empty,if_true]
      exact stay _
    · simp only [empty,if_false]
      exact probe _ _ _
  | store i second ptr1 =>
    simp only [advance,insert,pc]
    cases createPointer (getCounter ptr1) f.newEntry false with
    | none => exact ⟨fingerprint,first,by assumption⟩
    | some word =>
      by_cases found : m.hashTable (f.bucket second) i = ptr1
      · simp only [Memory.compareAndSwap,found,if_true]
        trivial
      · simp only [Memory.compareAndSwap,found,if_false]
        exact probe _ _ _
  | kick rest frame =>
    simp only [advance,insert,pc]
    cases relocate cfg tid m frame with | mk next result =>
    cases result with
    | running after => exact stay _
    | returned result =>
      cases result with
      | true => exact stay _
      | false =>
        cases rest with
        | nil => trivial
        | cons kickSlot rest => exact stay _

theorem advance_remove_keyed (cfg : Config) (tid : Nat) (m : Memory) (f : RemoveFrame)
    (keyed : (Control.remove f).Keyed cfg) :
    (advance cfg tid m (.remove f)).2.Keyed cfg := by
  obtain ⟨first,second,search⟩ := keyed
  cases pc : f.pc with
  | find frame =>
    have own := search frame (by simp [RemoveFrame.find?,pc])
    simp only [advance,remove,pc]
    cases flow : find cfg tid m frame with | mk next result =>
    cases result with
    | running after =>
      refine ⟨first,second,?_⟩
      rintro _ ⟨⟩
      exact find_for own (by rw [flow])
    | returned result =>
      by_cases missing : result.1 = numItemsPerEntry * 2
      · simp only [missing,if_true]
        trivial
      · simp only [missing,if_false]
        exact ⟨first,second,by simp [RemoveFrame.find?,RemoveFrame.goto]⟩
  | cas location ptr1 =>
    simp only [advance,remove,pc]
    cases createPointer (getCounter ptr1) 0 false with
    | none => exact ⟨first,second,search⟩
    | some word =>
      by_cases found :
          m.hashTable (f.hashVal location) (location % numItemsPerEntry) = ptr1
      · simp only [Memory.compareAndSwap,found,if_true]
        trivial
      · simp only [Memory.compareAndSwap,found,if_false]
        refine ⟨first,second,?_⟩
        rintro _ ⟨⟩
        exact enter_for cfg f.key

theorem threadStep_keyed (keyed : before.Keyed cfg)
    (stepped : threadStep cfg tid m before action = some (next,after)) : after.Keyed cfg := by
  cases threadStep_move stepped with
  | invoke call =>
    cases call with
    | insert key => exact ⟨rfl,rfl,rfl⟩
    | find key => exact enter_for cfg key
    | remove key =>
      refine ⟨rfl,rfl,?_⟩
      rintro _ ⟨⟩
      exact enter_for cfg key
  | allocate | shuffle => exact keyed
  | insert frame => exact advance_insert_keyed cfg tid m frame keyed
  | find key frame =>
    simp only [advance]
    cases flow : find cfg tid m frame with | mk next result =>
    cases result with
    | running after => exact find_for keyed (by rw [flow])
    | returned result => trivial
  | remove frame => exact advance_remove_keyed cfg tid m frame keyed

/-- A slot and the word a thread read there. -/
structure Cell where
  bucket : Nat
  slot : Nat
  word : TablePointer
  deriving DecidableEq, Repr

def HelpFrame.held (f : HelpFrame) : List Cell :=
  match f.pc with
  | .readSource | .rereadSource => []
  | .markCas ptr1 | .deref ptr1 | .readDest ptr1 _ | .clearCas ptr1 _ | .sameCas ptr1 _
  | .failCas ptr1 _ => [⟨f.tableIdx,f.slotIdx,ptr1⟩]
  | .recheckSource ptr1 ptr2 newHash | .copyCas ptr1 ptr2 newHash =>
    [⟨f.tableIdx,f.slotIdx,ptr1⟩,⟨newHash,f.slotIdx,ptr2⟩]

def FindFrame.held (f : FindFrame) : List Cell :=
  match f.pc with
  | .compareFirst ptr1 => [⟨f.hash1,f.slot,ptr1⟩]
  | .compareSecond _ ptr2 => [⟨f.hash2,f.slot,ptr2⟩]
  | .help frame => frame.held
  | _ => []

def RelocateFrame.held (f : RelocateFrame) : List Cell :=
  match f.pc with
  | .discoverDeref _ ptr1 => [⟨f.tableIdx,f.slotIdx,ptr1⟩]
  | .traverseDeref depth _ sourcePtr => [⟨f.sourceIdx depth,f.slotIdx,sourcePtr⟩]
  | .discoverHelp _ frame | .traverseHelp _ _ frame | .traverseMove _ _ frame => frame.held
  | _ => []

def InsertFrame.held (f : InsertFrame) : List Cell :=
  match f.pc with
  | .store i second ptr1 => [⟨f.bucket second,i,ptr1⟩]
  | .kick _ frame => frame.held
  | _ => []

def RemoveFrame.held (f : RemoveFrame) : List Cell :=
  match f.pc with
  | .find frame => frame.held
  | .cas location ptr1 => [⟨f.hashVal location,location % numItemsPerEntry,ptr1⟩]

def Control.held : Control → List Cell
  | .idle => []
  | .insert frame => frame.held
  | .find _ frame => frame.held
  | .remove frame => frame.held

@[simp] theorem nextProbe_held (f : InsertFrame) (i : Nat) (second foundEmpty : Bool) :
    (f.nextProbe i second foundEmpty).held = [] := by
  unfold InsertFrame.nextProbe
  repeat' split
  all_goals rfl

/-- Every cell of `after` was remembered already or is the present slot word. -/
def Remembers (m : Memory) (before after : List Cell) : Prop :=
  ∀ cell ∈ after, cell ∈ before ∨ m.hashTable cell.bucket cell.slot = cell.word

@[simp] theorem remembers_nil (m : Memory) (before : List Cell) : Remembers m before [] := by
  simp [Remembers]

@[simp] theorem remembers_refl (m : Memory) (before : List Cell) : Remembers m before before :=
  fun _ member => .inl member

@[simp] theorem remembers_read (m : Memory) (before : List Cell) (b s : Nat) :
    Remembers m before [⟨b,s,m.hashTable b s⟩] := by
  simp [Remembers]

theorem occupied_held (f : HelpFrame) (ptr1 : TablePointer) (p : Address) (newHash : Nat) :
    (f.occupied ptr1 p newHash).held = [⟨f.tableIdx,f.slotIdx,ptr1⟩] := by
  unfold HelpFrame.occupied
  split <;> rfl

theorem helpStep_held (stepped : HelpStep cfg m f next (.running after)) :
    Remembers m f.held after.held := by
  cases stepped with
  | abort => simp
  | loadMarked => exact remembers_read _ _ _ _
  | loadUnmarked => exact remembers_read _ _ _ _
  | mark => exact remembers_nil _ _
  | markLost => exact remembers_nil _ _
  | retry => exact remembers_nil _ _
  | follow entry => simp [Remembers,HelpFrame.held,HelpFrame.goto,entry]
  | vacant entry => simp [Remembers,HelpFrame.held,HelpFrame.goto,entry]
  | confirm entry => simp [Remembers,HelpFrame.held,HelpFrame.goto,entry]
  | copy entry => simp [Remembers,HelpFrame.held,HelpFrame.goto,entry]
  | filled entry =>
    rw [occupied_held]
    simp [Remembers,HelpFrame.held,entry]
  | copyLost entry =>
    rw [occupied_held]
    simp [Remembers,HelpFrame.held,entry]

/-- The cells of a flow that goes on; a returned one keeps none. -/
def Flow.held (view : Frame → List Cell) : Flow Frame Result → List Cell
  | .running frame => view frame
  | .returned _ => []

theorem find_held (cfg : Config) (tid : Nat) (m : Memory) (f : FindFrame) :
    Remembers m f.held ((find cfg tid m f).2.held FindFrame.held) := by
  cases pc : f.pc with
  | help frame =>
    have stepped := helpRelocate_step cfg tid m frame
    simp only [find,pc,FindFrame.held]
    cases flow : helpRelocate cfg tid m frame with | mk next result =>
    rw [flow] at stepped
    cases result with
    | running after => exact helpStep_held stepped
    | returned => exact remembers_nil _ _
  | readFirst =>
    simp only [find,pc]
    repeat' split
    all_goals first
      | exact remembers_read _ _ _ _
      | exact remembers_nil _ _
  | readSecond ts1 =>
    simp only [find,pc]
    repeat' split
    all_goals first
      | exact remembers_read _ _ _ _
      | exact remembers_nil _ _
  | compareFirst ptr1 =>
    simp only [find,pc]
    split <;> exact remembers_nil _ _
  | compareSecond ts1 ptr2 =>
    simp only [find,pc]
    split <;> exact remembers_nil _ _
  | recheckFirst ts1 ts2 =>
    simp only [find,pc]
    exact remembers_nil _ _
  | recheckSecond ts1 ts2 ts1x =>
    simp only [find,pc,FindFrame.nextSlot]
    repeat' split
    all_goals exact remembers_nil _ _

/-- A search returns the word it compared, at the slot its location names. -/
theorem find_result (returned : (find cfg tid m f).2 = .returned (location,ptr)) :
    (location = f.slot ∧ ∃ ptr1, f.pc = .compareFirst ptr1 ∧ ptr = ptr1 ∧
      f.fingerprint = m.str (getRealPointer ptr)) ∨
    (location = f.slot + numItemsPerEntry ∧ ∃ ts1 ptr2, f.pc = .compareSecond ts1 ptr2 ∧
      ptr = ptr2 ∧ f.fingerprint = m.str (getRealPointer ptr)) ∨
    (location = numItemsPerEntry * 2 ∧ ∃ ts1 ts2 ts1x, f.pc = .recheckSecond ts1 ts2 ts1x ∧
      ¬f.slot + 1 < numItemsPerEntry ∧
      checkCounter ts1 ts2 ts1x (getCounter (m.hashTable f.hash2 f.slot)) = false) := by
  cases pc : f.pc with
  | help frame =>
    simp only [find,pc] at returned
    split at returned <;> simp at returned
  | readFirst =>
    simp only [find,pc] at returned
    repeat' split at returned
    all_goals simp at returned
  | readSecond ts1 =>
    simp only [find,pc] at returned
    repeat' split at returned
    all_goals simp at returned
  | compareFirst ptr1 =>
    simp only [find,pc] at returned
    split at returned
    · rename_i found
      cases returned
      exact .inl ⟨rfl,ptr,rfl,rfl,found⟩
    · simp at returned
  | compareSecond ts1 ptr2 =>
    simp only [find,pc] at returned
    split at returned
    · rename_i found
      cases returned
      exact .inr (.inl ⟨rfl,ts1,ptr,rfl,rfl,found⟩)
    · simp at returned
  | recheckFirst ts1 ts2 => simp [find,pc] at returned
  | recheckSecond ts1 ts2 ts1x =>
    simp only [find,pc,FindFrame.nextSlot] at returned
    split at returned
    · simp at returned
    · rename_i settled
      split at returned
      · simp at returned
      · rename_i last
        cases returned
        exact .inr (.inr ⟨rfl,ts1,ts2,ts1x,rfl,last,Bool.eq_false_iff.mpr settled⟩)

theorem relocate_held (cfg : Config) (tid : Nat) (m : Memory) (f : RelocateFrame) :
    Remembers m f.held ((relocate cfg tid m f).2.held RelocateFrame.held) := by
  cases flow : (relocate cfg tid m f).2 with
  | returned => exact remembers_nil _ _
  | running g =>
    cases relocate_running flow with
    | occupied | source => exact remembers_read _ _ _ _
    | discoverHelping pc stepped | traverseHelping pc stepped | moving pc stepped =>
      simp only [RelocateFrame.held,pc]
      exact helpStep_held stepped
    | _ => exact remembers_nil _ _

theorem advance_insert_held (cfg : Config) (tid : Nat) (m : Memory) (f : InsertFrame) :
    Remembers m f.held (advance cfg tid m (.insert f)).2.held := by
  cases pc : f.pc with
  | allocate | shuffle =>
    simp only [advance,insert,pc]
    exact remembers_refl _ _
  | probe i second foundEmpty =>
    simp only [advance,insert,pc]
    by_cases empty : getRealPointer (m.hashTable (f.bucket second) i) = 0
    · simp only [empty,if_true]
      exact remembers_read _ _ _ _
    · simp only [empty,if_false,Control.held,nextProbe_held]
      exact remembers_nil _ _
  | store i second ptr1 =>
    simp only [advance,insert,pc]
    cases createPointer (getCounter ptr1) f.newEntry false with
    | none => exact remembers_refl _ _
    | some word =>
      by_cases found : m.hashTable (f.bucket second) i = ptr1
      · simp only [Memory.compareAndSwap,found,if_true]
        exact remembers_nil _ _
      · simp only [Memory.compareAndSwap,found,if_false,Control.held,nextProbe_held]
        exact remembers_nil _ _
  | kick rest frame =>
    have cells := relocate_held cfg tid m frame
    have before : f.held = frame.held := by simp [InsertFrame.held,pc]
    rw [before]
    simp only [advance,insert,pc]
    cases flow : relocate cfg tid m frame with | mk next result =>
    rw [flow] at cells
    cases result with
    | running after => exact cells
    | returned result =>
      cases result with
      | true => exact remembers_nil _ _
      | false => cases rest <;> exact remembers_nil _ _

/-- The location a search returns names the slot of the word it carries. -/
theorem location_cell {f : RemoveFrame} (first : f.hash1 = search.hash1) (second : f.hash2 = search.hash2)
    (bound : search.slot < numItemsPerEntry)
    (returned : (find cfg tid m search).2 = .returned (location,ptr))
    (found : location ≠ numItemsPerEntry * 2) :
    (⟨f.hashVal location,location % numItemsPerEntry,ptr⟩ : Cell) ∈ search.held := by
  have small : search.slot < 4 := bound
  rcases find_result returned with ⟨rfl,ptr1,pc,rfl,-⟩ | ⟨rfl,ts1,ptr2,pc,rfl,-⟩ | ⟨missing,-⟩
  · simp [FindFrame.held,pc,RemoveFrame.hashVal,bound,Nat.mod_eq_of_lt bound,first]
  · have wrapped : (search.slot + 4) % 4 = search.slot := by omega
    simp [FindFrame.held,pc,RemoveFrame.hashVal,numItemsPerEntry,wrapped,second]
  · exact absurd missing found

theorem advance_remove_held (cfg : Config) (tid : Nat) (m : Memory) (f : RemoveFrame)
    (keyed : (Control.remove f).Keyed cfg) :
    Remembers m f.held (advance cfg tid m (.remove f)).2.held := by
  cases pc : f.pc with
  | find search =>
    have cells := find_held cfg tid m search
    have before : f.held = search.held := by simp [RemoveFrame.held,pc]
    obtain ⟨first,second,own⟩ := keyed
    obtain ⟨-,first',second',bound⟩ := own search (by simp [RemoveFrame.find?,pc])
    rw [before]
    simp only [advance,remove,pc]
    cases flow : find cfg tid m search with | mk next result =>
    rw [flow] at cells
    cases result with
    | running after => exact cells
    | returned result =>
      obtain ⟨location,ptr⟩ := result
      by_cases missing : location = numItemsPerEntry * 2
      · simp only [missing,if_true]
        exact remembers_nil _ _
      · simp only [missing,if_false]
        have member := location_cell (first.trans first'.symm) (second.trans second'.symm)
          bound (by rw [flow]) missing
        intro cell read
        obtain rfl := List.mem_singleton.mp read
        exact .inl member
  | cas location ptr1 =>
    simp only [advance,remove,pc]
    cases createPointer (getCounter ptr1) 0 false with
    | none => exact remembers_refl _ _
    | some word =>
      by_cases found : m.hashTable (f.hashVal location) (location % numItemsPerEntry) = ptr1
      · simp only [Memory.compareAndSwap,found,if_true]
        exact remembers_nil _ _
      · simp only [Memory.compareAndSwap,found,if_false]
        exact remembers_nil _ _

theorem threadStep_held (keyed : before.Keyed cfg)
    (stepped : threadStep cfg tid m before action = some (next,after)) :
    Remembers m before.held after.held := by
  cases threadStep_move stepped with
  | invoke call =>
    cases call with
    | _ key => exact remembers_nil _ _
  | allocate | shuffle => exact remembers_nil _ _
  | insert frame => exact advance_insert_held cfg tid m frame
  | find key frame =>
    have cells := find_held cfg tid m frame
    simp only [advance]
    cases flow : find cfg tid m frame with | mk next result =>
    rw [flow] at cells
    cases result with
    | running after => exact cells
    | returned result => exact remembers_nil _ _
  | remove frame => exact advance_remove_held cfg tid m frame keyed

end CuckooFilter.LockFree
