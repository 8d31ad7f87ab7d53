import CuckooFilter.LockFreeRun

/-! The life of an entry before it is shared: allocated, owned by one insertion,
then stored. An entry that is not yet stored is in no slot and no other thread
remembers it, so no compare-and-swap of another thread can put it anywhere. -/
namespace CuckooFilter.LockFree

theorem help_held {before : Control} (inside : before.help? = some f) : f.held = before.held := by
  cases before with
  | idle => contradiction
  | insert frame =>
    cases pc : frame.pc with
    | kick rest inner =>
      cases innerPc : inner.pc
      all_goals simp_all [Control.help?,InsertFrame.relocate?,RelocateFrame.help?,Control.held,
        InsertFrame.held,RelocateFrame.held]
    | _ => simp [Control.help?,InsertFrame.relocate?,pc] at inside
  | find key frame =>
    cases pc : frame.pc
    all_goals simp_all [Control.help?,FindFrame.help?,Control.held,FindFrame.held]
  | remove frame =>
    cases pc : frame.pc with
    | find search =>
      cases searchPc : search.pc
      all_goals simp_all [Control.help?,RemoveFrame.find?,FindFrame.help?,Control.held,
        RemoveFrame.held,FindFrame.held]
    | cas => simp [Control.help?,RemoveFrame.find?,pc] at inside

/-- An entry no one but `tid` can reach. -/
structure Private (s : System) (tid : Nat) (entry : Address) : Prop where
  slots : ∀ b i, getRealPointer (s.memory.hashTable b i) ≠ entry
  cells : ∀ other, ∀ cell ∈ (s.control other).held, getRealPointer cell.word ≠ entry
  owners : ∀ other, other ≠ tid → (s.control other).unstored? ≠ some entry
  stored : ∀ x ∈ s.memory.stored, x.entry ≠ entry

structure Sound (cfg : Config) (s : System) : Prop where
  keyed : ∀ tid, (s.control tid).Keyed cfg
  slots : ∀ b i, getRealPointer (s.memory.hashTable b i) ≠ 0 →
    s.memory.heap (getRealPointer (s.memory.hashTable b i)) ≠ none
  cells : ∀ tid, ∀ cell ∈ (s.control tid).held, getRealPointer cell.word ≠ 0 →
    s.memory.heap (getRealPointer cell.word) ≠ none
  owned : ∀ tid entry, (s.control tid).unstored? = some entry →
    entry ≠ 0 ∧ Fits entry ∧ s.memory.heap entry ≠ none
  string : ∀ tid frame, s.control tid = .insert frame → frame.pc ≠ .allocate →
    s.memory.heap frame.newEntry = some frame.fingerprint
  unshared : ∀ tid entry, (s.control tid).unstored? = some entry → Private s tid entry
  stored : ∀ x ∈ s.memory.stored, x.entry ≠ 0 ∧
    s.memory.heap x.entry = some (cfg.md5Fingerprint x.key)

theorem sound_initial (cfg : Config) : Sound cfg System.initial := by
  constructor <;> simp [System.initial,Memory.initial,Control.Keyed,Control.held,Control.unstored?]

/-- The real pointer a step leaves in a slot was in that slot, in a word the
thread remembers, or is the entry the thread stores. -/
theorem slotStep_origin {before : Control}
    (owned : ∀ entry, before.unstored? = some entry → Fits entry)
    (changed : SlotStep m before b i word) (present : getRealPointer word ≠ 0) :
    getRealPointer word = getRealPointer (m.hashTable b i) ∨
    (∃ cell ∈ before.held, getRealPointer cell.word = getRealPointer word) ∨
    ∃ frame second ptr1, before = .insert frame ∧ frame.pc = .store i second ptr1 ∧
      b = frame.bucket second ∧ m.hashTable b i = ptr1 ∧ frame.newEntry = getRealPointer word := by
  cases changed with
  | kept same => exact .inl (by rw [same])
  | @store frame second ptr1 site entry bucket found created =>
    have own : before.unstored? = some frame.newEntry := by simp [site,Control.unstored?,entry]
    exact .inr (.inr ⟨frame,second,ptr1,site,entry,bucket,found,
      (createPointer_real created (owned _ own)).symm⟩)
  | take site entry bucket slot found created =>
    exact absurd (createPointer_real created null_fits) present
  | mark inside entry bucket slot found same => simp [found,same]
  | @copy f ptr1 ptr2 inside entry slot found created =>
    rw [createPointer_real created (getRealPointer_fits _)]
    refine .inr (.inl ⟨⟨f.tableIdx,f.slotIdx,ptr1⟩,?_,rfl⟩)
    rw [← help_held inside]
    simp [HelpFrame.held,entry]
  | clear inside entry bucket slot found created =>
    exact absurd (createPointer_real created null_fits) present
  | complete inside entry slot found created =>
    exact absurd (createPointer_real created null_fits) present
  | rollBack inside entry slot found created =>
    rw [createPointer_real created (getRealPointer_fits _),found]
    exact .inl rfl

/-- An owned entry was owned before the step or has just been allocated. -/
theorem newEntry_step (stepped : ThreadStep cfg tid m before next after)
    (owns : after.unstored? = some entry) :
    before.unstored? = some entry ∨ m.Fresh entry := by
  cases stepped with
  | other nested kept =>
    rcases kept with kept | none
    · exact .inl (kept ▸ owns)
    · rw [none] at owns; contradiction
  | allocate site pc fresh memory now =>
    simp only [now,Control.unstored?] at owns
    split at owns
    · contradiction
    · cases owns; exact .inr fresh
  | store _ _ _ _ _ now => rw [now] at owns; contradiction
  | take _ _ _ _ _ now => rw [now] at owns; contradiction

theorem heap_allocated (stepped : ThreadStep cfg tid m before next after)
    (allocated : m.heap entry ≠ none) : next.heap entry ≠ none := by
  rwa [threadStep_heap stepped allocated]

theorem insert_running {f g : InsertFrame} (started : f.pc ≠ .allocate)
    (flow : (insert cfg tid m f).2 = .running g) :
    g.pc ≠ .allocate ∧ g.newEntry = f.newEntry ∧ g.fingerprint = f.fingerprint := by
  cases pc : f.pc with
  | allocate => exact absurd pc started
  | shuffle =>
    simp only [insert,pc] at flow
    cases flow
    exact ⟨started,rfl,rfl⟩
  | probe i second foundEmpty =>
    simp only [insert,pc] at flow
    split at flow
    · cases flow
      simp [InsertFrame.goto]
    · cases flow
      simp
  | store i second ptr1 =>
    simp only [insert,pc] at flow
    split at flow
    · cases flow
      exact ⟨started,rfl,rfl⟩
    · split at flow
      · cases flow
      · cases flow
        simp
  | kick rest frame =>
    simp only [insert,pc] at flow
    split at flow
    · cases flow
      simp [InsertFrame.goto]
    · cases flow
      simp [InsertFrame.goto]
    · cases rest with
      | nil => cases flow
      | cons kickSlot rest =>
        cases flow
        simp [InsertFrame.goto]

theorem insert_frame_step (started : frame.pc ≠ .allocate)
    (raw : threadStep cfg tid m before action = some (next,.insert frame)) :
    (∃ earlier, before = .insert earlier ∧ earlier.pc ≠ .allocate ∧
      earlier.newEntry = frame.newEntry ∧ earlier.fingerprint = frame.fingerprint) ∨
    next.heap frame.newEntry = some frame.fingerprint := by
  generalize now : Control.insert frame = after at raw
  cases threadStep_move raw with
  | invoke call =>
    cases call <;> cases now
    exact absurd rfl started
  | allocate earlier address =>
    cases now
    exact .inr (by simp [Memory.allocate])
  | shuffle earlier kickSlot rest kicks =>
    cases now
    exact .inl ⟨earlier,rfl,by simp [kicks],rfl,rfl⟩
  | find key earlier =>
    simp only [advance] at now
    split at now <;> cases now
  | remove earlier =>
    simp only [advance] at now
    split at now <;> cases now
  | insert earlier allocated =>
    simp only [advance] at now
    split at now
    · rename_i flow
      cases now
      obtain ⟨-,entry,fingerprint⟩ := insert_running allocated (by rw [flow])
      exact .inl ⟨earlier,rfl,allocated,entry.symm,fingerprint.symm⟩
    · cases now

/-- A cell of any thread after a step of `tid` was remembered before, or its word
is in the slot it names. -/
theorem cell_step (sound : Sound cfg s) (moved : StepBy cfg tid s t) {other : Nat} {cell : Cell}
    (member : cell ∈ (t.control other).held) :
    cell ∈ (s.control other).held ∨ s.memory.hashTable cell.bucket cell.slot = cell.word := by
  by_cases same : other = tid
  · subst other
    obtain ⟨-,⟨action,raw⟩,-⟩ := stepBy_cases moved
    exact threadStep_held (sound.keyed tid) raw cell member
  · rw [stepBy_other moved same] at member
    exact .inl member

theorem sound_known (sound : Sound cfg s) {tid : Nat} (owns : (s.control tid).unstored? = some entry) :
    Fits entry := (sound.owned tid entry owns).2.1

/-- A store succeeds only in a step that ends the insertion. -/
theorem store_ends (stepped : ThreadStep cfg tid m before next after)
    (site : before = .insert frame) (pc : frame.pc = .store i second ptr1)
    (found : m.hashTable (frame.bucket second) i = ptr1)
    (changed : next.hashTable (frame.bucket second) i ≠ ptr1) : after = .idle := by
  cases stepped with
  | other nested =>
    have outside : before.help? = none := by simp [site,Control.help?,InsertFrame.relocate?,pc]
    rw [(nested_quiet nested outside).table,found] at changed
    contradiction
  | allocate site' pc' =>
    cases site.symm.trans site'
    rw [pc] at pc'; contradiction
  | store _ _ _ _ _ now => exact now
  | take _ _ _ _ _ now => exact now

theorem private_step (sound : Sound cfg s) (moved : StepBy cfg tid s t)
    (owned : (s.control owner).unstored? = some entry)
    (owns : (t.control owner).unstored? = some entry) : Private t owner entry := by
  have stepped := stepBy_thread moved
  have before := sound.unshared owner entry owned
  obtain ⟨present,fits,allocated⟩ := sound.owned owner entry owned
  have holder (has : (s.control tid).unstored? = some entry) : tid = owner := by
    by_contra different
    exact before.owners tid different has
  constructor
  · intro b i same
    rcases slotStep_origin (fun e own => sound_known sound own) (threadStep_slot stepped b i)
      (same ▸ present) with old | ⟨cell,member,real⟩ | ⟨frame,second,ptr1,site,pc,bucket,found,real⟩
    · exact before.slots b i (old.symm.trans same)
    · exact before.cells tid cell member (real.trans same)
    · have own := holder (by simp [site,Control.unstored?,pc,real,same])
      subst tid b
      have changed : t.memory.hashTable (frame.bucket second) i ≠ ptr1 := by
        intro kept
        exact before.slots (frame.bucket second) i (by rw [found,← kept,same])
      rw [store_ends stepped site pc found changed] at owns
      contradiction
  · intro other cell member same
    rcases cell_step sound moved member with old | read
    · exact before.cells other cell old same
    · exact before.slots cell.bucket cell.slot (read ▸ same)
  · intro other different has
    by_cases same : other = tid
    · subst other
      rcases newEntry_step stepped has with had | fresh
      · exact before.owners tid different had
      · exact allocated fresh.2.2
    · rw [stepBy_other moved same] at has
      exact before.owners other different has
  · intro x member same
    rcases stored_step stepped with kept | ⟨frame,i,second,ptr1,site,pc,now,added⟩
    · exact before.stored x (kept ▸ member) same
    · rw [added] at member
      rcases List.mem_cons.mp member with rfl | old
      · have own := holder (by simp [site,Control.unstored?,pc,← same])
        subst tid
        rw [now] at owns
        contradiction
      · exact before.stored x old same

theorem private_fresh (sound : Sound cfg s) (moved : StepBy cfg tid s t)
    (fresh : s.memory.Fresh entry) (owns : (t.control tid).unstored? = some entry)
    (pc : (s.control tid).unstored? ≠ some entry) : Private t tid entry := by
  have stepped := stepBy_thread moved
  obtain ⟨present,fits,unallocated⟩ := fresh
  have table : t.memory.hashTable = s.memory.hashTable ∧ t.memory.stored = s.memory.stored := by
    cases stepped with
    | other nested kept =>
      rcases kept with kept | none
      · exact absurd (kept ▸ owns) pc
      · rw [none] at owns; contradiction
    | allocate _ _ _ memory => rw [memory]; exact ⟨rfl,rfl⟩
    | store _ _ _ _ _ now => rw [now] at owns; contradiction
    | take _ _ _ _ _ now => rw [now] at owns; contradiction
  constructor
  · intro b i same
    rw [table.1] at same
    exact sound.slots b i (same ▸ present) (same ▸ unallocated)
  · intro other cell member same
    rcases cell_step sound moved member with old | read
    · exact sound.cells other cell old (same ▸ present) (same ▸ unallocated)
    · rw [← read] at same
      exact sound.slots cell.bucket cell.slot (same ▸ present) (same ▸ unallocated)
  · intro other different has
    rw [stepBy_other moved different] at has
    exact (sound.owned other entry has).2.2 unallocated
  · intro x member same
    rw [table.2] at member
    have known := (sound.stored x member).2
    rw [same,unallocated] at known
    contradiction

theorem newEntry_allocated (stepped : ThreadStep cfg tid m before next after)
    (had : before.unstored? ≠ some entry) (owns : after.unstored? = some entry) :
    next.heap entry ≠ none := by
  cases stepped with
  | other nested kept =>
    rcases kept with kept | none
    · exact absurd (kept ▸ owns) had
    · rw [none] at owns; contradiction
  | allocate site pc fresh memory now =>
    simp only [now,Control.unstored?] at owns
    split at owns
    · contradiction
    · cases owns
      simp [memory,Memory.allocate]
  | store _ _ _ _ _ now => rw [now] at owns; contradiction
  | take _ _ _ _ _ now => rw [now] at owns; contradiction

theorem slots_step (sound : Sound cfg s) (moved : StepBy cfg tid s t)
    (present : getRealPointer (t.memory.hashTable b i) ≠ 0) :
    t.memory.heap (getRealPointer (t.memory.hashTable b i)) ≠ none := by
  have stepped := stepBy_thread moved
  rcases slotStep_origin (fun e own => sound_known sound own) (threadStep_slot stepped b i)
    present with old | ⟨cell,member,real⟩ | ⟨frame,second,ptr1,site,pc,bucket,found,real⟩
  · rw [old] at present ⊢
    exact heap_allocated stepped (sound.slots b i present)
  · rw [← real] at present ⊢
    exact heap_allocated stepped (sound.cells tid cell member present)
  · rw [← real]
    exact heap_allocated stepped (sound.owned tid _ (by simp [site,Control.unstored?,pc])).2.2

theorem owned_step (sound : Sound cfg s) (moved : StepBy cfg tid s t) {other : Nat}
    (owns : (t.control other).unstored? = some entry) :
    entry ≠ 0 ∧ Fits entry ∧ t.memory.heap entry ≠ none := by
  have stepped := stepBy_thread moved
  by_cases had : (s.control other).unstored? = some entry
  · obtain ⟨present,fits,allocated⟩ := sound.owned other entry had
    exact ⟨present,fits,heap_allocated stepped allocated⟩
  · have same : other = tid := by
      by_contra different
      exact had (stepBy_other moved different ▸ owns)
    subst other
    obtain ⟨present,fits,-⟩ := (newEntry_step stepped owns).resolve_left had
    exact ⟨present,fits,newEntry_allocated stepped had owns⟩

theorem string_step (sound : Sound cfg s) (moved : StepBy cfg tid s t) {other : Nat}
    (site : t.control other = .insert frame) (started : frame.pc ≠ .allocate) :
    t.memory.heap frame.newEntry = some frame.fingerprint := by
  have stepped := stepBy_thread moved
  by_cases same : other = tid
  · subst other
    obtain ⟨-,⟨action,raw⟩,-⟩ := stepBy_cases moved
    rw [site] at raw
    rcases insert_frame_step started raw with ⟨earlier,was,running,entry,fingerprint⟩ | now
    · have string := sound.string tid earlier was running
      rw [← entry,← fingerprint,threadStep_heap stepped (by simp [string]),string]
    · exact now
  · rw [stepBy_other moved same] at site
    have string := sound.string other frame site started
    rw [threadStep_heap stepped (by simp [string]),string]

theorem unshared_step (sound : Sound cfg s) (moved : StepBy cfg tid s t) {other : Nat}
    (owns : (t.control other).unstored? = some entry) : Private t other entry := by
  by_cases had : (s.control other).unstored? = some entry
  · exact private_step sound moved had owns
  · have same : other = tid := by
      by_contra different
      exact had (stepBy_other moved different ▸ owns)
    subst other
    have fresh := (newEntry_step (stepBy_thread moved) owns).resolve_left had
    exact private_fresh sound moved fresh owns had

theorem stored_string_step (sound : Sound cfg s) (moved : StepBy cfg tid s t)
    (member : x ∈ t.memory.stored) :
    x.entry ≠ 0 ∧ t.memory.heap x.entry = some (cfg.md5Fingerprint x.key) := by
  have stepped := stepBy_thread moved
  have old (known : x ∈ s.memory.stored) :
      x.entry ≠ 0 ∧ t.memory.heap x.entry = some (cfg.md5Fingerprint x.key) := by
    obtain ⟨present,string⟩ := sound.stored x known
    exact ⟨present,by rw [threadStep_heap stepped (by simp [string]),string]⟩
  rcases stored_step stepped with kept | ⟨frame,i,second,ptr1,site,pc,-,added⟩
  · exact old (kept ▸ member)
  · rw [added] at member
    rcases List.mem_cons.mp member with rfl | known
    · have own : (s.control tid).unstored? = some frame.newEntry := by
        simp [site,Control.unstored?,pc]
      obtain ⟨present,-,allocated⟩ := sound.owned tid _ own
      have string := sound.string tid frame site (by simp [pc])
      have keyed := sound.keyed tid
      rw [site] at keyed
      refine ⟨present,?_⟩
      rw [threadStep_heap stepped allocated]
      exact string.trans (congrArg some keyed.1)
    · exact old known

theorem sound_step (sound : Sound cfg s) (moved : StepBy cfg tid s t) : Sound cfg t := by
  constructor
  · intro other
    by_cases same : other = tid
    · subst other
      obtain ⟨-,⟨action,raw⟩,-⟩ := stepBy_cases moved
      exact threadStep_keyed (sound.keyed tid) raw
    · rw [stepBy_other moved same]; exact sound.keyed other
  · exact fun b i present => slots_step sound moved present
  · intro other cell member present
    rcases cell_step sound moved member with old | read
    · exact heap_allocated (stepBy_thread moved) (sound.cells other cell old present)
    · rw [← read] at present ⊢
      exact heap_allocated (stepBy_thread moved) (sound.slots cell.bucket cell.slot present)
  · exact fun other entry owns => owned_step sound moved owns
  · exact fun other frame site started => string_step sound moved site started
  · exact fun other entry owns => unshared_step sound moved owns
  · exact fun x member => stored_string_step sound moved member

theorem reachable_sound (reachable : Reachable cfg s) : Sound cfg s :=
  Transition.run_invariant (Sound cfg) (fun _ _ sound ⟨_,_,moved⟩ => sound_step sound moved)
    (sound_initial cfg) reachable

end CuckooFilter.LockFree
