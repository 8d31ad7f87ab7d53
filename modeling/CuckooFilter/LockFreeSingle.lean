import CuckooFilter.LockFreeUpheld

/-! The filter in the hands of one thread. Between its operations the table is clean
and stands for the bag that the answers so far leave. -/
namespace CuckooFilter.LockFree

variable {cfg : Config} {tid : Nat} {s t : System} {m n : Memory}

/-- The table has the entries put in and not taken out. -/
structure Tended (cfg : Config) (m : Memory) : Prop where
  clean : m.Clean cfg
  known : ∀ y ∈ m.removed, ∃ x ∈ m.stored, x.entry = y.entry
  holds : ∀ entry, entry ≠ 0 → (m.Holds cfg entry ↔
    (∃ x ∈ m.stored, x.entry = entry) ∧ ∀ y ∈ m.removed, y.entry ≠ entry)

theorem tended_initial (cfg : Config) : Tended cfg Memory.initial := by
  refine ⟨clean_initial cfg,by simp [Memory.initial],?_⟩
  intro entry present
  refine iff_of_false ?_ (by simp [Memory.initial])
  rintro ⟨b,i,-,here⟩
  exact present (by simpa [Memory.initial] using here.symm)

theorem Tended.steady (tended : Tended cfg m) (steady : Steady m n)
    (table : n.hashTable = m.hashTable) : Tended cfg n := by
  obtain ⟨clean,known,holds⟩ := tended
  refine ⟨clean.table table,?_,?_⟩
  · rw [steady.silent.removed,steady.silent.stored]
    exact known
  · rw [steady.silent.removed,steady.silent.stored]
    simpa only [Memory.Holds,table] using holds

theorem Tended.shifted (tended : Tended cfg m) (steady : Steady m n) (shifted : Shifted cfg m n b i) :
    Tended cfg n := by
  obtain ⟨clean,known,holds⟩ := tended
  refine ⟨shifted.clean clean,?_,?_⟩
  · rw [steady.silent.removed,steady.silent.stored]
    exact known
  · intro entry present
    rw [steady.silent.removed,steady.silent.stored,shifted.holds present]
    exact holds entry present

theorem Tended.allocate (tended : Tended cfg m) (address : Address) (str : Bytes) :
    Tended cfg (m.allocate address str) :=
  ⟨⟨tended.clean.unmarked,tended.clean.single⟩,tended.known,tended.holds⟩

theorem Tended.respond (tended : Tended cfg m) (tid : Nat) (call : Call) (response : Response) :
    Tended cfg (m.respond tid call response) :=
  ⟨⟨tended.clean.unmarked,tended.clean.single⟩,tended.known,tended.holds⟩

theorem home_slot (key : Bytes)
    (bucket : b = (FindFrame.enter cfg key).hash1 ∨ b = (FindFrame.enter cfg key).hash2) :
    b < cfg.tableSize := by
  rcases bucket with first | second
  · rw [first]
    exact Nat.mod_lt _ cfg.positive
  · rw [second]
    exact getNextHashIndex_lt cfg.positive _ _

theorem Placing.slot {f : InsertFrame} (placing : Placing cfg m f second i word) :
    cfg.Slot (f.bucket second) i := by
  obtain ⟨-,first,other⟩ := placing.keyed
  refine ⟨home_slot f.key ?_,placing.inside⟩
  cases second with
  | false => exact .inl first
  | true => exact .inr other

theorem Taking.slot {f : RemoveFrame} (taking : Taking cfg m f location word) :
    cfg.Slot (f.hashVal location) (location % numItemsPerEntry) :=
  ⟨home_slot f.key taking.bucket,Nat.mod_lt _ (by decide)⟩

/-- An insertion puts its entry, which no slot has, into an empty slot. -/
theorem Tended.placed (tended : Tended cfg m) {f : InsertFrame} (placing : Placing cfg m f second i word) :
    Tended cfg (f.placed tid m second i word) := by
  obtain ⟨clean,known,holds⟩ := tended
  have put := put_clean (b := f.bucket second) (i := i) clean placing.unmarked
    (placing.real ▸ placing.absent)
  refine ⟨⟨put.unmarked,put.single⟩,?_,?_⟩
  · intro y member
    obtain ⟨x,old,same⟩ := known y member
    exact ⟨x,List.mem_cons_of_mem _ old,same⟩
  · intro entry there
    have moved : (f.placed tid m second i word).Holds cfg entry ↔
        entry = f.newEntry ∨ m.Holds cfg entry := by
      rw [← placing.real]
      exact put_holds placing.slot placing.empty there
    rw [moved,holds entry there]
    constructor
    · rintro (rfl | ⟨⟨x,old,same⟩,kept⟩)
      · refine ⟨⟨_,List.mem_cons_self,rfl⟩,?_⟩
        intro y member same
        obtain ⟨x,old,equal⟩ := known y member
        exact placing.unstored x old (equal.trans same)
      · exact ⟨⟨x,List.mem_cons_of_mem _ old,same⟩,kept⟩
    · rintro ⟨⟨x,member,same⟩,kept⟩
      rcases List.mem_cons.mp member with rfl | old
      · exact .inl same.symm
      · exact .inr ⟨⟨x,old,same⟩,kept⟩

/-- A removal takes its entry out of the one slot that has it. -/
theorem Tended.taken (tended : Tended cfg m) {f : RemoveFrame} (taking : Taking cfg m f location word) :
    Tended cfg (f.taken tid m location
      (m.hashTable (f.hashVal location) (location % numItemsPerEntry)) word) := by
  obtain ⟨clean,known,holds⟩ := tended
  have present := taking.hits.1
  have take := take_clean (b := f.hashVal location) (i := location % numItemsPerEntry) clean
    taking.unmarked taking.null
  refine ⟨⟨take.unmarked,take.single⟩,?_,?_⟩
  · intro y member
    rcases List.mem_cons.mp member with rfl | old
    · obtain ⟨x,stored,same⟩ := ((holds _ present).mp ⟨_,_,taking.slot,rfl⟩).1
      exact ⟨x,stored,same⟩
    · exact known y old
  · intro entry there
    have moved : (f.taken tid m location (m.hashTable (f.hashVal location)
        (location % numItemsPerEntry)) word).Holds cfg entry ↔
        entry ≠ getRealPointer (m.hashTable (f.hashVal location) (location % numItemsPerEntry)) ∧
          m.Holds cfg entry := take_holds clean taking.slot taking.null there
    rw [moved,holds entry there]
    constructor
    · rintro ⟨away,stored,kept⟩
      refine ⟨stored,fun y member => ?_⟩
      rcases List.mem_cons.mp member with rfl | old
      · exact Ne.symm away
      · exact kept y old
    · rintro ⟨stored,kept⟩
      exact ⟨Ne.symm (kept _ List.mem_cons_self),stored,
        fun y old => kept y (List.mem_cons_of_mem _ old)⟩

def Call.op : Call → Bag.Op Bytes
  | .insert key => .insert key
  | .find key => .find key
  | .remove key => .remove key

/-- A location within the table says yes. -/
def Response.success : Response → Bool
  | .truth value => value
  | .location index => index < 2 * numItemsPerEntry

/-- The calls and their answers, the newest first. -/
def Memory.history (m : Memory) : List (Bag.Op Bytes × Bool) :=
  m.returned.map fun (_,call,response) => (call.op,response.success)

abbrev Config.keyClass (cfg : Config) (key : Bytes) : KeyClass :=
  CuckooFilter.keyClass cfg.tableSize cfg.md5Fingerprint key

/-- The table between two operations. -/
structure Balanced (cfg : Config) (m : Memory) : Prop extends Tended cfg m where
  replay : Bag.Replay (Bag.relabel cfg.keyClass m.history) (m.bag cfg)

theorem balanced_initial (cfg : Config) : Balanced cfg Memory.initial := by
  refine ⟨tended_initial cfg,?_⟩
  have empty : Memory.initial.bag cfg = 0 :=
    labels_empty fun _ _ => fingerprint_none.mpr getRealPointer_null
  rw [empty]
  exact .start

theorem Balanced.respond (balanced : Balanced cfg m) (call : Call) (response : Response)
    (answers : Bag.Step (m.bag cfg) (call.op.map cfg.keyClass) response.success (m.bag cfg)) :
    Balanced cfg (m.respond tid call response) :=
  ⟨balanced.toTended.respond tid call response,.step balanced.replay answers⟩

theorem bag_allocate (fresh : m.Fresh address)
    (known : ∀ b i, getRealPointer (m.hashTable b i) ≠ 0 →
      m.heap (getRealPointer (m.hashTable b i)) ≠ none) (str : Bytes) :
    (m.allocate address str).bag cfg = m.bag cfg := by
  rw [Memory.bag,fingerprint_allocate fresh known str]
  rfl

theorem class_at (power : cfg.tableSize = 2 ^ e) (key : Bytes)
    (bucket : b = (FindFrame.enter cfg key).hash1 ∨ b = (FindFrame.enter cfg key).hash2) :
    classAt cfg.tableSize b (cfg.md5Fingerprint key) = cfg.keyClass key := by
  rcases bucket with first | second
  · rw [first]
    rfl
  · rw [second]
    exact classAt_alternate power (Nat.mod_lt _ cfg.positive) _

theorem Placing.bag {f : InsertFrame} (placing : Placing cfg m f second i word)
    (power : cfg.tableSize = 2 ^ e) :
    (f.placed tid m second i word).bag cfg = cfg.keyClass f.key ::ₘ m.bag cfg := by
  obtain ⟨fingerprint,first,other⟩ := placing.keyed
  have bucket : f.bucket second = (FindFrame.enter cfg f.key).hash1 ∨
      f.bucket second = (FindFrame.enter cfg f.key).hash2 := by
    cases second with
    | false => exact .inl first
    | true => exact .inr other
  have string : m.str (getRealPointer word) = f.fingerprint := by
    simp [Memory.str,placing.real,placing.string]
  rw [← class_at power f.key bucket,← fingerprint,← string]
  exact put_bag placing.slot placing.empty
    (placing.real ▸ placing.present)

theorem Taking.bag {f : RemoveFrame} (taking : Taking cfg m f location word)
    (tid : Nat) (power : cfg.tableSize = 2 ^ e) :
    m.bag cfg = cfg.keyClass f.key ::ₘ (f.taken tid m location
      (m.hashTable (f.hashVal location) (location % numItemsPerEntry)) word).bag cfg := by
  obtain ⟨present,-,string⟩ := taking.hits
  rw [← class_at power f.key taking.bucket,string]
  exact take_bag taking.slot present taking.null

theorem balanced_upheld (power : cfg.tableSize = 2 ^ e) (tid : Nat) :
    Upheld cfg tid (Balanced cfg) where
  clean m balanced := balanced.clean
  steady m n balanced steady table := by
    refine ⟨balanced.toTended.steady steady table,?_⟩
    rw [bag_alike ⟨table,steady.heap⟩,Memory.history,steady.silent.returned]
    exact balanced.replay
  shifted m n b i balanced steady shifted := by
    refine ⟨balanced.toTended.shifted steady shifted,?_⟩
    rw [shifted.bag power,Memory.history,steady.silent.returned]
    exact balanced.replay
  allocate m address str balanced fresh known := by
    refine ⟨balanced.toTended.allocate address str,?_⟩
    rw [bag_allocate fresh known]
    exact balanced.replay
  found m key location word balanced found := by
    have answer : Response.success (.location location) =
        decide (cfg.keyClass key ∈ m.bag cfg) := by
      rw [Response.success,decide_eq_decide]
      exact found.mem_bag balanced.clean power
    refine balanced.respond _ _ ?_
    rw [answer]
    exact .found
  missing m key word balanced found := by
    refine balanced.respond _ _ (.missing fun there => ?_)
    exact Nat.lt_irrefl _ ((found.mem_bag balanced.clean power).mpr there)
  refused m key balanced := balanced.respond _ _ .refused
  placed m f second i word balanced placing := by
    refine ⟨balanced.toTended.placed placing,?_⟩
    rw [placing.bag power]
    exact .step balanced.replay .stored
  taken m f location word balanced taking := by
    refine ⟨balanced.toTended.taken taking,?_⟩
    have before := taking.bag tid power
    have rest : (f.taken tid m location (m.hashTable (f.hashVal location)
        (location % numItemsPerEntry)) word).bag cfg = (m.bag cfg).erase (cfg.keyClass f.key) := by
      rw [before,Multiset.erase_cons_head]
    rw [rest]
    exact .step balanced.replay (.removed (before ▸ Multiset.mem_cons_self _ _))

/-- In a reachable state no mark and no entry is outside the table. -/
theorem unmarked_everywhere (reachable : Reachable cfg s) (unmarked : s.memory.Unmarked cfg)
    (b i : Nat) : getMarked (s.memory.hashTable b i) = false := by
  refine Bool.eq_false_of_not_eq_true fun marked => ?_
  have full := (reachable_formed reachable).marked b i marked
  rw [unmarked b i (holder_slot reachable full)] at marked
  contradiction

theorem single_everywhere (reachable : Reachable cfg s) (clean : s.memory.Clean cfg)
    (full : getRealPointer (s.memory.hashTable b i) ≠ 0)
    (same : getRealPointer (s.memory.hashTable b' i') = getRealPointer (s.memory.hashTable b i)) :
    b' = b ∧ i' = i :=
  clean.single b i b' i' (holder_slot reachable full) (holder_slot reachable (same ▸ full)) full same

/-- The operation is over or cannot go on: the process has aborted on a counter above
`UINT16_MAX`, or `operator new` has no address to give. -/
def Ended (tid : Nat) (t : System) : Prop :=
  t.control tid = .idle ∨ t.Overflows tid ∨
    ∃ f, t.control tid = .insert f ∧ f.pc = .allocate ∧ ∀ address, ¬t.memory.Fresh address

theorem call_ends (upheld : Upheld cfg tid held) (start : held Memory.initial)
    (run : Relation.ReflTransGen (StepBy cfg tid) System.initial s)
    (idle : s.control tid = .idle) (moved : StepBy cfg tid s t) : Alone cfg tid (Ended tid) t := by
  have live : t.memory.aborted = false := by
    obtain ⟨alive,-⟩ := stepBy_cases moved
    obtain ⟨call,rfl⟩ := idle_step moved idle
    cases call <;> exact alive
  rcases (run_inHand upheld start (run.tail moved)).phase with ⟨rests,-⟩ | alone
  · exact .reached (.inl rests)
  · have ends : Alone cfg tid (fun u => u.memory.aborted = true ∨ u.control tid = .idle ∨
        ∃ f, u.control tid = .insert f ∧ f.pc = .allocate ∧ ∀ address, ¬u.memory.Fresh address) t := by
      refine alone.mono fun u => ?_
      rintro (aborted | exhausted | ⟨rests,-⟩)
      · exact .inl aborted
      · exact .inr (.inr exhausted)
      · exact .inr (.inl rests)
    refine (Alone.overflows live ends).mono fun u => ?_
    rintro (beyond | rests | exhausted)
    · exact .inr (.inl beyond)
    · exact .inl rests
    · exact .inr (.inr exhausted)

/-- One thread between its operations: no mark, every entry put in and not taken out in
exactly one slot, the table the bag its answers leave, the last location naming a slot with
the fingerprint, and an end to the next operation. -/
theorem single_thread_refines_bag (power : cfg.tableSize = 2 ^ e)
    (run : Relation.ReflTransGen (StepBy cfg tid) System.initial s)
    (idle : s.control tid = .idle) :
    (∀ b i, getMarked (s.memory.hashTable b i) = false) ∧
    (∀ x ∈ s.memory.stored, (∀ y ∈ s.memory.removed, y.entry ≠ x.entry) →
      ∃ b < cfg.tableSize, ∃ i < numItemsPerEntry, ∀ b' i',
        getRealPointer (s.memory.hashTable b' i') = x.entry ↔ b' = b ∧ i' = i) ∧
    (∀ y ∈ s.memory.removed, ∀ b i, getRealPointer (s.memory.hashTable b i) ≠ y.entry) ∧
    Bag.Replay (Bag.relabel cfg.keyClass s.memory.history) (s.memory.bag cfg) ∧
    s.memory.bag cfg + (Bag.removed s.memory.history).map cfg.keyClass =
      (Bag.inserted s.memory.history).map cfg.keyClass ∧
    s.memory.Named cfg ∧
    ∀ t, StepBy cfg tid s t → Alone cfg tid (Ended tid) t := by
  have reachable := single_reachable run
  obtain ⟨balanced,named⟩ := idle_upheld (balanced_upheld power tid) (balanced_initial cfg) run idle
  have stored := (reachable_sound reachable).stored
  refine ⟨unmarked_everywhere reachable balanced.clean.unmarked,?_,?_,balanced.replay,?_,named,
    fun t moved => call_ends (balanced_upheld power tid) (balanced_initial cfg) run idle moved⟩
  · intro x member untaken
    have present := (stored x member).1
    obtain ⟨b,i,slot,holds⟩ := (balanced.holds x.entry present).mpr ⟨⟨x,member,rfl⟩,untaken⟩
    have full : getRealPointer (s.memory.hashTable b i) ≠ 0 := holds ▸ present
    refine ⟨b,slot.1,i,slot.2,fun b' i' => ⟨fun same => ?_,?_⟩⟩
    · exact single_everywhere reachable balanced.clean full (same.trans holds.symm)
    · rintro ⟨rfl,rfl⟩
      exact holds
  · intro y member b i holds
    obtain ⟨x,old,same⟩ := balanced.known y member
    have present : y.entry ≠ 0 := same ▸ (stored x old).1
    have slot : cfg.Slot b i := holder_slot reachable (holds ▸ present)
    exact ((balanced.holds y.entry present).mp ⟨b,i,slot,holds⟩).2 y member rfl
  · have balance := balanced.replay.balance
    rwa [Bag.removed_relabel,Bag.inserted_relabel] at balance

theorem endState_single (tid : Nat) (schedule : List (Nat × Action))
    (alone : (executeWhile cfg (fun mover _ => mover = tid) schedule System.initial).isSome = true) :
    Relation.ReflTransGen (StepBy cfg tid) System.initial (endState cfg schedule) := by
  have run := endState_run (fun mover _ => mover = tid) schedule alone
  refine Relation.ReflTransGen.mono ?_ _ _ run
  rintro s t ⟨mover,rfl,moved⟩
  exact moved

/-- A search for `a` where it has moved to, and a removal of an `f`. -/
def lookups : List (Nat × Action) :=
  [(0,.invoke (.find keyA))] ++ runs 0 4 ++ [(0,.invoke (.remove keyF))] ++ runs 0 3

/-- Before these a fifth `f` is refused. -/
def servingSchedule : List (Nat × Action) :=
  movingSchedule ++ inserts 0 keyF 12 8 ++ [(0,.shuffle [3,2,1,0])] ++ runs 0 80 ++ lookups

theorem served_thread_refines_bag :
    (endState sampleConfig servingSchedule).memory.history =
      [(.remove keyF,true),(.find keyA,true),(.insert keyF,false),(.insert keyF,true),
        (.insert keyF,true),(.insert keyF,true),(.insert keyF,true),(.insert keyA,true)] ∧
    (∃ b < 2, ∃ i < 4, ∀ b' i',
      getRealPointer ((endState sampleConfig servingSchedule).memory.hashTable b' i') = 2 ↔
        b' = b ∧ i' = i) ∧
    (∀ b i, getRealPointer ((endState sampleConfig servingSchedule).memory.hashTable b i) ≠ 10) ∧
    (endState sampleConfig servingSchedule).memory.bag sampleConfig =
      sampleConfig.keyClass keyA ::ₘ Multiset.replicate 3 (sampleConfig.keyClass keyF) ∧
    ∀ t, StepBy sampleConfig 0 (endState sampleConfig servingSchedule) t →
      Alone sampleConfig 0 (Ended 0) t := by
  have run : Relation.ReflTransGen (StepBy sampleConfig 0) System.initial
      (endState sampleConfig servingSchedule) := endState_single 0 servingSchedule (by decide +kernel)
  have stored : (⟨0,keyA,2,0,0⟩ : Transfer) ∈
      (endState sampleConfig servingSchedule).memory.stored := by decide +kernel
  have taken : (⟨0,keyF,10,0,0⟩ : Transfer) ∈
      (endState sampleConfig servingSchedule).memory.removed := by decide +kernel
  have told : (endState sampleConfig servingSchedule).memory.history =
      [(.remove keyF,true),(.find keyA,true),(.insert keyF,false),(.insert keyF,true),
        (.insert keyF,true),(.insert keyF,true),(.insert keyF,true),(.insert keyA,true)] := by
    decide +kernel
  obtain ⟨-,single,gone,-,balance,-,ends⟩ :=
    single_thread_refines_bag (e := 1) rfl run (by decide +kernel)
  refine ⟨told,single _ stored (by decide +kernel),gone _ taken,?_,ends⟩
  have removed : Bag.removed (endState sampleConfig servingSchedule).memory.history = {keyF} := by
    rw [told]
    rfl
  have inserted : Bag.inserted (endState sampleConfig servingSchedule).memory.history =
      keyA ::ₘ keyF ::ₘ Multiset.replicate 3 keyF := by
    rw [told]
    decide
  rw [removed,inserted] at balance
  simp only [Multiset.map_singleton,Multiset.map_cons,Multiset.map_replicate] at balance
  rw [Multiset.cons_swap,← Multiset.singleton_add,add_comm {_}] at balance
  exact add_right_cancel balance

end CuckooFilter.LockFree
