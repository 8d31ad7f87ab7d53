import CuckooFilter.LockFreeSingle

/-! Who owns an entry. A step hands an entry to an insertion, stores it, or refuses it; a
refused entry is in no slot and on no list ever after. With one thread and no refusal every
entry stays in one slot or goes once onto the retired list. -/
namespace CuckooFilter.LockFree

variable {cfg : Config} {tid : Nat} {s t : System} {m n next : Memory} {before after : Control}

def refusedKey : Nat × Call × Response → Option Bytes
  | (_,.insert key,.truth false) => some key
  | _ => none

def Memory.refusals (m : Memory) : List Bytes := m.returned.filterMap refusedKey

/-- What a step does with the entry in hand. -/
inductive Handed (m : Memory) (before : Control) (next : Memory) (after : Control) : Prop where
  | kept (same : after.unstored? = before.unstored?) (answers : next.refusals = m.refusals) :
      Handed m before next after
  | given (was : before.unstored? = none) (fresh : m.Fresh entry)
      (now : after.unstored? = some entry) (answers : next.refusals = m.refusals) :
      Handed m before next after
  | stored (was : before.unstored? = some entry) (record : ∃ x ∈ next.stored, x.entry = entry)
      (answers : next.refusals = m.refusals) : Handed m before next after
  | refused (was : before.unstored? = some entry) (now : after.unstored? = none)
      (answers : next.refusals = key :: m.refusals) (unstored : next.stored = m.stored) :
      Handed m before next after

theorem Silent.refusals (same : Silent m next) : next.refusals = m.refusals := by
  rw [Memory.refusals,same.returned,Memory.refusals]

theorem insert_handed (started : f.pc ≠ .allocate) :
    Handed m (.insert f) (advance cfg tid m (.insert f)).1 (advance cfg tid m (.insert f)).2 := by
  have own : (Control.insert f).unstored? = some f.newEntry := if_neg started
  cases pc : f.pc with
  | allocate => exact absurd pc started
  | shuffle =>
    simp only [advance,insert,pc]
    exact .kept rfl rfl
  | probe i second foundEmpty =>
    simp only [advance,insert,pc]
    by_cases empty : getRealPointer (m.hashTable (f.bucket second) i) = 0
    · simp only [empty,if_true]
      exact .kept own.symm rfl
    · simp only [empty,if_false]
      refine .kept ?_ rfl
      rw [own,Control.unstored?,if_neg (nextProbe_pc f i second foundEmpty).1,
        (nextProbe_frame f i second foundEmpty).2.1]
  | store i second ptr1 =>
    simp only [advance,insert,pc]
    cases createPointer (getCounter ptr1) f.newEntry false with
    | none => exact .kept rfl rfl
    | some word =>
      by_cases found : m.hashTable (f.bucket second) i = ptr1
      · simp only [Memory.compareAndSwap,found,if_true]
        exact .stored own ⟨_,List.mem_cons_self,rfl⟩ rfl
      · simp only [Memory.compareAndSwap,found,if_false]
        refine .kept ?_ rfl
        rw [own,Control.unstored?,if_neg (nextProbe_pc f i second true).1,
          (nextProbe_frame f i second true).2.1]
  | kick rest frame =>
    have inner := relocate_silent cfg tid m frame
    simp only [advance,insert,pc]
    cases flow : relocate cfg tid m frame with | mk next result =>
    rw [flow] at inner
    cases result with
    | running after => exact .kept own.symm inner.refusals
    | returned result =>
      cases result with
      | true => exact .kept own.symm inner.refusals
      | false =>
        cases rest with
        | nil =>
          have recorded := congrArg (fun events => f.key :: events.filterMap refusedKey)
            inner.returned
          exact .refused own rfl recorded inner.stored
        | cons kickSlot rest => exact .kept own.symm inner.refusals

theorem remove_handed (cfg : Config) (tid : Nat) (m : Memory) (f : RemoveFrame) :
    Handed m (.remove f) (advance cfg tid m (.remove f)).1 (advance cfg tid m (.remove f)).2 := by
  cases pc : f.pc with
  | find frame =>
    have inner := find_silent cfg tid m frame
    simp only [advance,remove,pc]
    cases flow : find cfg tid m frame with | mk next result =>
    rw [flow] at inner
    cases result with
    | running after => exact .kept rfl inner.refusals
    | returned result =>
      by_cases missing : result.1 = numItemsPerEntry * 2
      · simp only [missing,if_true]
        exact .kept rfl inner.refusals
      · simp only [missing,if_false]
        exact .kept rfl inner.refusals
  | cas location ptr1 =>
    simp only [advance,remove,pc]
    cases createPointer (getCounter ptr1) 0 false with
    | none => exact .kept rfl rfl
    | some word =>
      by_cases found : m.hashTable (f.hashVal location) (location % numItemsPerEntry) = ptr1
      · simp only [Memory.compareAndSwap,found,if_true]
        exact .kept rfl rfl
      · simp only [Memory.compareAndSwap,found,if_false]
        exact .kept rfl rfl

theorem threadStep_handed (raw : threadStep cfg tid m before action = some (next,after)) :
    Handed m before next after := by
  cases threadStep_move raw with
  | invoke call =>
    cases call with
    | _ key => exact .kept rfl rfl
  | allocate frame address begins fresh => exact .given (if_pos begins) fresh rfl rfl
  | shuffle frame kickSlot rest kicks =>
    refine .kept ?_ rfl
    rw [Control.unstored?,Control.unstored?,kicks]
    rfl
  | insert frame allocated => exact insert_handed allocated
  | find key frame =>
    have inner := find_silent cfg tid m frame
    simp only [advance]
    cases flow : find cfg tid m frame with | mk next result =>
    rw [flow] at inner
    cases result with
    | running after => exact .kept rfl inner.refusals
    | returned result => exact .kept rfl inner.refusals
  | remove frame => exact remove_handed cfg tid m frame

/-- An allocated entry that no insertion has in hand and none has stored. -/
structure Lost (s : System) (entry : Address) : Prop where
  allocated : s.memory.heap entry ≠ none
  unowned : ∀ tid, (s.control tid).unstored? ≠ some entry
  unstored : ∀ x ∈ s.memory.stored, x.entry ≠ entry

theorem lost_step (lost : Lost s entry) (moved : StepBy cfg tid s t) : Lost t entry := by
  obtain ⟨allocated,unowned,unstored⟩ := lost
  have stepped := stepBy_thread moved
  refine ⟨heap_allocated stepped allocated,?_,?_⟩
  · intro other owns
    by_cases same : other = tid
    · subst other
      rcases newEntry_step stepped owns with had | fresh
      · exact unowned tid had
      · exact allocated fresh.2.2
    · rw [stepBy_other moved same] at owns
      exact unowned other owns
  · intro x member
    rcases stored_step stepped with same | ⟨frame,i,second,ptr1,site,pc,-,same⟩
    · exact unstored x (same ▸ member)
    · rw [same] at member
      rcases List.mem_cons.mp member with rfl | old
      · intro equal
        exact unowned tid (by simp [site,Control.unstored?,pc,← equal])
      · exact unstored x old

theorem refused_lost (sound : Sound cfg s) (moved : StepBy cfg tid s t)
    (was : (s.control tid).unstored? = some entry) (now : (t.control tid).unstored? = none)
    (unstored : t.memory.stored = s.memory.stored) : Lost t entry := by
  have alone := sound.unshared tid entry was
  refine ⟨heap_allocated (stepBy_thread moved) (sound.owned tid entry was).2.2,?_,?_⟩
  · intro other owns
    by_cases same : other = tid
    · rw [same,now] at owns
      contradiction
    · rw [stepBy_other moved same] at owns
      exact alone.owners other same owns
  · rw [unstored]
    exact alone.stored

theorem lost_since (moved : StepBy cfg tid s t) (lost : Lost t entry) :
    Lost s entry ∨ (s.control tid).unstored? = some entry ∧ (t.control tid).unstored? = none ∧
      ∃ key, t.memory.refusals = key :: s.memory.refusals := by
  have stepped := stepBy_thread moved
  obtain ⟨-,⟨action,raw⟩,-⟩ := stepBy_cases moved
  have unstored (x : Transfer) (member : x ∈ s.memory.stored) : x.entry ≠ entry :=
    lost.unstored x (stored_grows moved member)
  have others (other : Nat) (different : other ≠ tid) :
      (s.control other).unstored? ≠ some entry := by
    rw [← stepBy_other moved different]
    exact lost.unowned other
  have allocated : s.memory.heap entry ≠ none := by
    intro none
    cases stepped with
    | other nested =>
      have heap := (nested_heap nested).1
      exact lost.allocated (heap ▸ none)
    | @allocate frame address site pc fresh memory now =>
      have other : entry ≠ address := by
        rintro rfl
        exact lost.unowned tid (by rw [now]; rfl)
      refine lost.allocated ?_
      rw [memory,← none]
      exact if_neg other
    | store _ _ _ _ same => exact lost.allocated (same.heap ▸ none)
    | take _ _ _ _ same => exact lost.allocated (same.heap ▸ none)
  by_cases own : (s.control tid).unstored? = some entry
  · right
    cases threadStep_handed raw with
    | kept same => exact absurd (same.trans own) (lost.unowned tid)
    | given was =>
      rw [own] at was
      contradiction
    | stored was record =>
      obtain ⟨x,member,same⟩ := record
      rw [own] at was
      cases was
      exact absurd same (lost.unstored x member)
    | refused _ now answers => exact ⟨own,now,_,answers⟩
  · left
    refine ⟨allocated,fun other => ?_,unstored⟩
    by_cases same : other = tid
    · exact same ▸ own
    · exact others other same

theorem lost_refused (moved : StepBy cfg tid s t) (lost : Lost t entry) :
    Lost s entry ∨ t.memory.refusals ≠ [] := by
  refine (lost_since moved lost).imp id ?_
  rintro ⟨-,-,key,answers⟩
  simp [answers]

/-- Some entry is lost exactly when some insertion has answered false. -/
structure Balance (s : System) : Prop where
  lost : s.memory.refusals ≠ [] → ∃ entry, Lost s entry
  refused : ∀ entry, Lost s entry → s.memory.refusals ≠ []

theorem balance_initial : Balance System.initial := by
  refine ⟨fun some => absurd rfl some,fun entry lost => absurd rfl lost.allocated⟩

theorem balance_step (sound : Sound cfg s) (balance : Balance s) (moved : StepBy cfg tid s t) :
    Balance t := by
  obtain ⟨-,⟨action,raw⟩,-⟩ := stepBy_cases moved
  have grows (some : s.memory.refusals ≠ []) : t.memory.refusals ≠ [] := by
    cases threadStep_handed raw with
    | kept _ answers | given _ _ _ answers | stored _ _ answers => rwa [answers]
    | refused _ _ answers => simp [answers]
  constructor
  · intro some
    have earlier (answers : t.memory.refusals = s.memory.refusals) : ∃ entry, Lost t entry := by
      obtain ⟨entry,lost⟩ := balance.lost (answers ▸ some)
      exact ⟨entry,lost_step lost moved⟩
    cases threadStep_handed raw with
    | kept _ answers | given _ _ _ answers | stored _ _ answers => exact earlier answers
    | refused was now _ unstored => exact ⟨_,refused_lost sound moved was now unstored⟩
  · intro entry lost
    rcases lost_refused moved lost with old | some
    · exact grows (balance.refused entry old)
    · exact some

theorem reachable_balance (reachable : Reachable cfg s) : Balance s := by
  have both : Sound cfg s ∧ Balance s :=
    Transition.run_invariant (fun s => Sound cfg s ∧ Balance s)
      (fun _ _ both ⟨_,_,moved⟩ => ⟨sound_step both.1 moved,balance_step both.1 both.2 moved⟩)
      ⟨sound_initial cfg,balance_initial⟩ reachable
  exact both.2

/-- Between two operations of thread `tid`: its retired list has what its removals took
out, each entry once. -/
structure Ledger (cfg : Config) (tid : Nat) (m : Memory) : Prop extends Tended cfg m where
  distinct : (m.removed.map Transfer.entry).Nodup
  retired : m.retiredPtrs tid = (m.removed.map Transfer.entry).reverse

theorem ledger_initial (cfg : Config) (tid : Nat) : Ledger cfg tid Memory.initial :=
  ⟨tended_initial cfg,List.nodup_nil,rfl⟩

theorem ledger_upheld (cfg : Config) (tid : Nat) : Upheld cfg tid (Ledger cfg tid) where
  clean m ledger := ledger.clean
  steady m n ledger steady table := by
    refine ⟨ledger.toTended.steady steady table,?_,?_⟩
    · rw [steady.silent.removed]
      exact ledger.distinct
    · rw [steady.silent.removed,steady.silent.retired]
      exact ledger.retired
  shifted m n b i ledger steady shifted := by
    refine ⟨ledger.toTended.shifted steady shifted,?_,?_⟩
    · rw [steady.silent.removed]
      exact ledger.distinct
    · rw [steady.silent.removed,steady.silent.retired]
      exact ledger.retired
  allocate m address str ledger _ _ :=
    ⟨ledger.toTended.allocate address str,ledger.distinct,ledger.retired⟩
  found m key location word ledger _ :=
    ⟨ledger.toTended.respond tid _ _,ledger.distinct,ledger.retired⟩
  missing m key word ledger _ :=
    ⟨ledger.toTended.respond tid _ _,ledger.distinct,ledger.retired⟩
  refused m key ledger := ⟨ledger.toTended.respond tid _ _,ledger.distinct,ledger.retired⟩
  placed m f second i word ledger placing :=
    ⟨ledger.toTended.placed placing,ledger.distinct,ledger.retired⟩
  taken m f location word ledger taking := by
    have held := (ledger.holds _ taking.hits.1).mp ⟨_,_,taking.slot,rfl⟩
    refine ⟨ledger.toTended.taken taking,?_,?_⟩
    · refine List.nodup_cons.mpr ⟨fun member => ?_,ledger.distinct⟩
      obtain ⟨y,old,same⟩ := List.mem_map.mp member
      exact held.2 y old same
    · simp [RemoveFrame.taken,Memory.respond,Memory.recordRemoved,Memory.retireKey,Memory.write,
        ledger.retired]

/-- Every allocated entry is in one slot or once on the retired list, and not in both. -/
def Owned (cfg : Config) (tid : Nat) (m : Memory) : Prop :=
  ∀ entry, m.heap entry ≠ none →
    (∃ b < cfg.tableSize, ∃ i < numItemsPerEntry,
      (∀ b' i', getRealPointer (m.hashTable b' i') = entry ↔ b' = b ∧ i' = i) ∧
      entry ∉ m.retiredPtrs tid) ∨
    (∀ b i, getRealPointer (m.hashTable b i) ≠ entry) ∧ (m.retiredPtrs tid).count entry = 1

theorem unrefused_iff : m.refusals = [] ↔ ∀ other key, (other,.insert key,.truth false) ∉ m.returned := by
  rw [Memory.refusals,List.filterMap_eq_nil_iff]
  constructor
  · intro none other key member
    exact absurd (none _ member) (by simp [refusedKey])
  · rintro none ⟨other,call,response⟩ member
    cases call with
    | insert key =>
      cases response with
      | truth value =>
        cases value with
        | true => rfl
        | false => exact absurd member (none other key)
      | location => rfl
    | _ => rfl

theorem others_idle (run : Relation.ReflTransGen (StepBy cfg tid) System.initial s)
    (different : other ≠ tid) : s.control other = .idle :=
  Transition.run_invariant (fun s => s.control other = .idle)
    (fun _ _ idle moved => (stepBy_other moved different).trans idle) rfl run

theorem Ledger.owns (ledger : Ledger cfg tid s.memory) (reachable : Reachable cfg s)
    (stored : x ∈ s.memory.stored) :
    (∃ b < cfg.tableSize, ∃ i < numItemsPerEntry,
      (∀ b' i', getRealPointer (s.memory.hashTable b' i') = x.entry ↔ b' = b ∧ i' = i) ∧
      x.entry ∉ s.memory.retiredPtrs tid) ∨
    (∀ b i, getRealPointer (s.memory.hashTable b i) ≠ x.entry) ∧
      (s.memory.retiredPtrs tid).count x.entry = 1 := by
  have present := ((reachable_sound reachable).stored x stored).1
  by_cases taken : ∃ y ∈ s.memory.removed, y.entry = x.entry
  · obtain ⟨y,member,same⟩ := taken
    refine .inr ⟨fun b i here => ?_,?_⟩
    · have slot : cfg.Slot b i := holder_slot reachable (here ▸ present)
      exact ((ledger.holds _ present).mp ⟨b,i,slot,here⟩).2 y member same
    · rw [ledger.retired,List.count_reverse]
      exact List.count_eq_one_of_mem ledger.distinct (List.mem_map.mpr ⟨y,member,same⟩)
  · have untaken (y : Transfer) (member : y ∈ s.memory.removed) : y.entry ≠ x.entry :=
      fun same => taken ⟨y,member,same⟩
    obtain ⟨b,i,slot,here⟩ := (ledger.holds _ present).mpr ⟨⟨x,stored,rfl⟩,untaken⟩
    have full : getRealPointer (s.memory.hashTable b i) ≠ 0 := here ▸ present
    refine .inl ⟨b,slot.1,i,slot.2,fun b' i' => ⟨fun same => ?_,?_⟩,?_⟩
    · exact single_everywhere reachable ledger.clean full (same.trans here.symm)
    · rintro ⟨rfl,rfl⟩
      exact here
    · rw [ledger.retired,List.mem_reverse]
      intro member
      obtain ⟨y,old,same⟩ := List.mem_map.mp member
      exact untaken y old same

/-- After each completed operation of a single thread every allocated entry is in one slot
or once on the retired list, exactly when no insertion has answered false so far. -/
theorem owned_iff_unrefused (run : Relation.ReflTransGen (StepBy cfg tid) System.initial s)
    (idle : s.control tid = .idle) :
    Owned cfg tid s.memory ↔ ∀ other key, (other,.insert key,.truth false) ∉ s.memory.returned := by
  have reachable := single_reachable run
  have ledger := (idle_upheld (ledger_upheld cfg tid) (ledger_initial cfg tid) run idle).1
  have balance := reachable_balance reachable
  rw [← unrefused_iff]
  constructor
  · intro owned
    by_contra some
    obtain ⟨entry,lost⟩ := balance.lost some
    rcases owned entry lost.allocated with ⟨b,-,i,inside,here,-⟩ | ⟨-,once⟩
    · have slot : getRealPointer (s.memory.hashTable b i) = entry := (here b i).mpr ⟨rfl,rfl⟩
      have present : entry ≠ 0 := by
        rintro rfl
        have beyond : getRealPointer (s.memory.hashTable b numItemsPerEntry) ≠ 0 :=
          (here b numItemsPerEntry).not.mpr (by omega)
        exact Nat.lt_irrefl _ (holder_slot reachable beyond).2
      have inside : cfg.Slot b i := holder_slot reachable (slot ▸ present)
      obtain ⟨x,stored,same⟩ := ((ledger.holds entry present).mp ⟨b,i,inside,slot⟩).1
      exact lost.unstored x stored same
    · have member : entry ∈ s.memory.retiredPtrs tid := List.count_pos_iff.mp (by omega)
      rw [ledger.retired,List.mem_reverse] at member
      obtain ⟨y,taken,rfl⟩ := List.mem_map.mp member
      obtain ⟨x,stored,same⟩ := ledger.known y taken
      exact lost.unstored x stored same
  · intro none entry allocated
    by_cases stored : ∃ x ∈ s.memory.stored, x.entry = entry
    · obtain ⟨x,member,rfl⟩ := stored
      exact ledger.owns reachable member
    · refine absurd none (balance.refused entry ⟨allocated,fun other => ?_,?_⟩)
      · by_cases same : other = tid
        · rw [same,idle]
          simp [Control.unstored?]
        · rw [others_idle run same]
          simp [Control.unstored?]
      · exact fun x member same => stored ⟨x,member,same⟩

end CuckooFilter.LockFree
