import CuckooFilter.LockFreeSoloInsert

/-! An insertion alone is exact: it finds room whenever its probes or one of its four
chains lead to an empty slot, and otherwise leaves the table as it was. -/
namespace CuckooFilter.LockFree

variable {cfg : Config} {tid : Nat} {s t : System} {m n start : Memory} {b i d hash1 hash2 : Nat}

/-- A candidate slot is empty, or the chain of one slot index from the first bucket comes to
an empty slot within its first `NUM_MAX_KICKS` buckets. -/
def Insertable (cfg : Config) (m : Memory) (hash1 hash2 : Nat) : Prop :=
  (∃ i < numItemsPerEntry, getRealPointer (m.hashTable hash1 i) = 0 ∨
    getRealPointer (m.hashTable hash2 i) = 0) ∨
  ∃ i < numItemsPerEntry, ∃ d < numMaxKicks, Leads cfg m hash1 i d

theorem first_bucket_lt (cfg : Config) (key : Bytes) :
    (InsertFrame.enter cfg key).hash1 < cfg.tableSize :=
  Nat.mod_lt _ cfg.positive

theorem insertable_alike (same : Alike m n) :
    Insertable cfg n hash1 hash2 ↔ Insertable cfg m hash1 hash2 := by
  simp only [Insertable,leads_alike same,same.table]

theorem not_insertable {f : InsertFrame} (crowded : f.Crowded m)
    (closed : f.Closed cfg m fun _ => True) : ¬Insertable cfg m f.hash1 f.hash2 := by
  rintro (⟨i,inside,here | there⟩ | ⟨i,inside,d,early,leads⟩)
  · exact crowded false i inside here
  · exact crowded true i inside there
  · exact closed i inside trivial d early leads

theorem leads_allocate (fresh : m.Fresh address)
    (known : ∀ b i, cfg.Slot b i → getRealPointer (m.hashTable b i) ≠ 0 →
      m.heap (getRealPointer (m.hashTable b i)) ≠ none) (slot : cfg.Slot b i) (str : Bytes) :
    Leads cfg (m.allocate address str) b i d ↔ Leads cfg m b i d := by
  have hop (c : Nat) (inside : c < cfg.tableSize) :
      (m.allocate address str).alternate cfg c i = m.alternate cfg c i := by
    simp only [Memory.alternate,allocate_table,allocate_str fresh (known c i ⟨inside,slot.2⟩)]
  constructor
  · rintro ⟨free,full⟩
    refine Chain.Reaches.change ?_ free full
    exact fun j _ => (hop _ (hop_lt slot _ j)).symm
  · rintro ⟨free,full⟩
    refine Chain.Reaches.change ?_ free full
    exact fun j _ => hop _ (hop_lt slot m j)

theorem insertable_allocate (fresh : m.Fresh address)
    (known : ∀ b i, cfg.Slot b i → getRealPointer (m.hashTable b i) ≠ 0 →
      m.heap (getRealPointer (m.hashTable b i)) ≠ none) (first : hash1 < cfg.tableSize)
    (str : Bytes) :
    Insertable cfg (m.allocate address str) hash1 hash2 ↔ Insertable cfg m hash1 hash2 := by
  refine or_congr Iff.rfl (exists_congr fun i => and_congr_right fun inside => ?_)
  exact exists_congr fun d => and_congr_right fun _ => leads_allocate fresh known ⟨first,inside⟩ str

/-- What an insertion has done to the table before it stores its entry. -/
structure Shuffled (cfg : Config) (start : Memory) (hash1 hash2 : Nat) (m : Memory) : Prop where
  clean : m.Clean cfg
  heap : m.heap = start.heap
  returned : m.returned = start.returned
  holds : ∀ entry, entry ≠ 0 → (m.Holds cfg entry ↔ start.Holds cfg entry)
  progress : m.hashTable = start.hashTable ∨
    Insertable cfg m hash1 hash2 ∧ Insertable cfg start hash1 hash2

theorem Shuffled.steady (shuffled : Shuffled cfg start hash1 hash2 m) (steady : Steady m n)
    (table : n.hashTable = m.hashTable) : Shuffled cfg start hash1 hash2 n := by
  obtain ⟨clean,heap,returned,holds,progress⟩ := shuffled
  refine ⟨clean.table table,steady.heap.trans heap,steady.silent.returned.trans returned,?_,?_⟩
  · simpa only [Memory.Holds,table] using holds
  · rw [table,insertable_alike ⟨table,steady.heap⟩]
    exact progress

/-- After a relocation the chain is one hop shorter, so room is still to be found. -/
theorem Shuffled.shifted (shuffled : Shuffled cfg start hash1 hash2 m) (steady : Steady m n)
    (inside : i < numItemsPerEntry) (early : d + 1 < numMaxKicks)
    (leads : Leads cfg m hash1 i (d + 1)) (shifted : Shifted cfg m n (m.hop cfg hash1 i d) i) :
    Shuffled cfg start hash1 hash2 n := by
  obtain ⟨clean,heap,returned,holds,progress⟩ := shuffled
  refine ⟨shifted.clean clean,steady.heap.trans heap,steady.silent.returned.trans returned,?_,
    .inr ⟨.inr ⟨i,inside,d,by omega,shifted.shortens leads⟩,?_⟩⟩
  · intro entry present
    rw [shifted.holds present]
    exact holds entry present
  · rcases progress with table | ⟨-,room⟩
    · exact .inr ⟨i,inside,d + 1,early,(leads_alike ⟨table,heap⟩).mp leads⟩
    · exact room

/-- An insertion of `key` has answered, from the memory `start`. -/
structure Inserted (cfg : Config) (tid : Nat) (key : Bytes) (start : Memory) (answer : Bool)
    (n : Memory) : Prop where
  returned : n.returned = (tid,.insert key,.truth answer) :: start.returned
  room : answer = true ↔
    Insertable cfg start (InsertFrame.enter cfg key).hash1 (InsertFrame.enter cfg key).hash2
  stored : answer = true → n.Clean cfg ∧ ∃ entry, start.Fresh entry ∧
    n.heap = (start.allocate entry (cfg.md5Fingerprint key)).heap ∧
    ∀ other, other ≠ 0 → (n.Holds cfg other ↔ other = entry ∨ start.Holds cfg other)
  unchanged : answer = false → n.hashTable = start.hashTable

def Concluded (cfg : Config) (tid : Nat) (key : Bytes) (start : Memory) (t : System) : Prop :=
  t.control tid = .idle ∧ ∃ answer, Inserted cfg tid key start answer t.memory

/-- The end of an insertion: an answer, or the abort on a counter above `UINT16_MAX`. -/
def Answers (cfg : Config) (tid : Nat) (key : Bytes) (start : Memory) (t : System) : Prop :=
  t.Overflows tid ∨ Concluded cfg tid key start t

theorem concluded_setting (cfg : Config) (tid : Nat) (key : Bytes) (start : Memory) :
    Setting cfg tid (fun _ => True) fun t =>
      t.memory.aborted = true ∨ Concluded cfg tid key start t :=
  ⟨fun _ aborted => .inl aborted,fun _ _ _ _ => trivial⟩

theorem inserting_exact (s : System) (fresh : start.Fresh address)
    (known : ∀ b i, cfg.Slot b i → getRealPointer (start.hashTable b i) ≠ 0 →
      start.heap (getRealPointer (start.hashTable b i)) ≠ none) (key : Bytes) :
    Inserting cfg tid s { InsertFrame.enter cfg key with newEntry := address } (fun _ => True)
      (fun t => t.memory.aborted = true ∨ Concluded cfg tid key start t)
      (Shuffled cfg (start.allocate address (cfg.md5Fingerprint key))
        (InsertFrame.enter cfg key).hash1 (InsertFrame.enter cfg key).hash2) where
  setting := concluded_setting cfg tid key start
  first := first_bucket_lt cfg key
  unmarked _ shuffled := shuffled.clean.unmarked
  steady _ _ shuffled := shuffled.steady
  shifted _ _ _ _ shuffled steady inside early leads shifted _ :=
    shuffled.shifted steady inside early leads shifted
  stored m second i word shuffled _ inside empty created := by
    have real : getRealPointer word = address := createPointer_real created fresh.2.1
    have absent : ¬m.Holds cfg address := by
      rw [shuffled.holds address fresh.1]
      rintro ⟨b,i,slot,here⟩
      exact known b i slot (here ▸ fresh.1) (here ▸ fresh.2.2)
    have room : Insertable cfg start (InsertFrame.enter cfg key).hash1
        (InsertFrame.enter cfg key).hash2 := by
      rw [← insertable_allocate fresh known (first_bucket_lt cfg key) (cfg.md5Fingerprint key)]
      rcases shuffled.progress with table | ⟨-,room⟩
      · rw [table] at empty
        cases second with
        | false => exact .inl ⟨i,inside,.inl empty⟩
        | true => exact .inl ⟨i,inside,.inr empty⟩
      · exact room
    have slot : cfg.Slot (InsertFrame.bucket { InsertFrame.enter cfg key with
        newEntry := address } second) i := by
      cases second with
      | false => exact ⟨first_bucket_lt cfg key,inside⟩
      | true => exact ⟨getNextHashIndex_lt cfg.positive _ _,inside⟩
    have put := put_clean (b := InsertFrame.bucket { InsertFrame.enter cfg key with
      newEntry := address } second) (i := i) shuffled.clean
      (createPointer_marked created fresh.2.1) (real ▸ absent)
    refine .inr ⟨put_control s tid _,true,?_,iff_of_true rfl room,fun _ => ?_,by simp⟩
    · exact congrArg _ shuffled.returned
    · refine ⟨⟨put.unmarked,put.single⟩,address,fresh,shuffled.heap,fun other present => ?_⟩
      have added : (m.write _ i word).Holds cfg other ↔
          other = getRealPointer word ∨ m.Holds cfg other := put_holds slot empty present
      rw [real,shuffled.holds other present] at added
      exact added
  refused m shuffled crowded closed := by
    have none := not_insertable crowded closed
    have table : m.hashTable = start.hashTable :=
      shuffled.progress.resolve_right fun moved => none moved.1
    refine .inr ⟨put_control s tid _,false,?_,iff_of_false (by simp) ?_,by simp,fun _ => table⟩
    · exact congrArg _ shuffled.returned
    · have same : Alike (start.allocate address (cfg.md5Fingerprint key)) m :=
        ⟨table,shuffled.heap⟩
      rw [← insertable_allocate fresh known (first_bucket_lt cfg key) (cfg.md5Fingerprint key),
        ← insertable_alike same]
      exact none

theorem allocated_exact (s : System) (clean : start.Clean cfg) (fresh : start.Fresh address)
    (known : ∀ b i, cfg.Slot b i → getRealPointer (start.hashTable b i) ≠ 0 →
      start.heap (getRealPointer (start.hashTable b i)) ≠ none) (key : Bytes) :
    Alone cfg tid (fun t => t.memory.aborted = true ∨ Concluded cfg tid key start t)
      (s.put tid (start.allocate address (cfg.md5Fingerprint key),
        .insert (InsertFrame.home { InsertFrame.enter cfg key with newEntry := address }))) := by
  refine (inserting_exact s fresh known key).alone ?_ trivial
  exact ⟨⟨clean.unmarked,clean.single⟩,rfl,rfl,fun _ _ => Iff.rfl,.inl rfl⟩

/-- An insertion alone on a clean table ends, unless the process aborts on a counter. It
stores its entry exactly when there is room by the probes or by a chain, next to the entries
that were there; and it changes no word otherwise. -/
theorem insert_exact (live : s.memory.aborted = false) (clean : s.memory.Clean cfg)
    (known : ∀ b i, cfg.Slot b i → getRealPointer (s.memory.hashTable b i) ≠ 0 →
      s.memory.heap (getRealPointer (s.memory.hashTable b i)) ≠ none)
    (fresh : ∃ address, s.memory.Fresh address) (key : Bytes)
    (site : s.control tid = .insert (.enter cfg key)) :
    Alone cfg tid (Answers cfg tid key s.memory) s := by
  have start : s = s.put tid (s.memory,.insert ((InsertFrame.enter cfg key).goto .allocate)) := by
    rw [show (InsertFrame.enter cfg key).goto .allocate = .enter cfg key from rfl,← site,put_self]
  refine Alone.overflows live ?_
  rw [start]
  refine allocate_alone (concluded_setting cfg tid key s.memory) trivial ?_ ?_
  · intro exhausted
    obtain ⟨address,free⟩ := fresh
    exact absurd free (exhausted address)
  · intro address free _
    exact allocated_exact s clean free known key

/-- Bucket 0 is full, and another `f` is to come. -/
def crowdedCall (key : Bytes) : List (Nat × Action) :=
  fillingSchedule key ++ [(0,.invoke (.insert keyF))]

def crowdedSteps (n : Nat) : List (Nat × Action) :=
  [(0,.allocate 10)] ++ runs 0 8 ++ [(0,.shuffle [0,1,2,3])] ++ runs 0 n

def crowdedEntry (b i : Nat) : Address := if b = 0 then [2,4,6,8].getD i 0 else 0

theorem crowded_clean (words : ∀ b < 2, ∀ i < 4,
      getMarked (m.hashTable b i) = false ∧ getRealPointer (m.hashTable b i) = crowdedEntry b i) :
    m.Clean sampleConfig := by
  refine ⟨fun b i slot => (words b slot.1 i slot.2).1,?_⟩
  intro b i b' i' slot slot' present same
  rw [(words b slot.1 i slot.2).2] at present same
  rw [(words b' slot'.1 i' slot'.2).2] at same
  have single : ∀ (b b' : Fin 2) (i i' : Fin 4), crowdedEntry b i ≠ 0 →
      crowdedEntry b' i' = crowdedEntry b i → b'.val = b ∧ i'.val = i := by decide
  exact single ⟨b,slot.1⟩ ⟨b',slot'.1⟩ ⟨i,slot.2⟩ ⟨i',slot'.2⟩ present same

/-- With `a` in slot 0 the insertion moves it to bucket 1; with `f` there it is refused. -/
theorem crowded_insert_exact :
    Inserted sampleConfig 0 keyF (endState sampleConfig (crowdedCall keyA)).memory true
        (endState sampleConfig (crowdedCall keyA ++ crowdedSteps 16)).memory ∧
      getRealPointer ((endState sampleConfig (crowdedCall keyA ++ crowdedSteps 16)).memory.hashTable
        1 0) = 2 ∧
      Inserted sampleConfig 0 keyF (endState sampleConfig (crowdedCall keyF)).memory false
        (endState sampleConfig (crowdedCall keyF ++ crowdedSteps 80)).memory := by
  have inserted (key : Bytes) (n : Nat)
      (words : ∀ b < 2, ∀ i < 4,
        getMarked ((endState sampleConfig (crowdedCall key)).memory.hashTable b i) = false ∧
        getRealPointer ((endState sampleConfig (crowdedCall key)).memory.hashTable b i) =
          crowdedEntry b i)
      (known : ∀ b < 2, ∀ i < 4, crowdedEntry b i ≠ 0 →
        (endState sampleConfig (crowdedCall key)).memory.heap (crowdedEntry b i) ≠ none)
      (start : (endState sampleConfig (crowdedCall key)).memory.aborted = false ∧
        (endState sampleConfig (crowdedCall key)).memory.Fresh 10 ∧
        (endState sampleConfig (crowdedCall key)).control 0 = .insert (.enter sampleConfig keyF))
      (begins : (execute sampleConfig (crowdedCall key) System.initial).isSome = true)
      (goes : (executeWhile sampleConfig (fun mover u => mover = 0 ∧ u.control 0 ≠ .idle)
        (crowdedSteps n) (endState sampleConfig (crowdedCall key))).isSome = true)
      (ended : (endState sampleConfig (crowdedCall key ++ crowdedSteps n)).memory.aborted = false ∧
        (endState sampleConfig (crowdedCall key ++ crowdedSteps n)).control 0 = .idle) :
      ∃ answer, Inserted sampleConfig 0 keyF (endState sampleConfig (crowdedCall key)).memory answer
        (endState sampleConfig (crowdedCall key ++ crowdedSteps n)).memory := by
    have alone := insert_exact start.1 (crowded_clean words) (fun b i slot present => by
      rw [(words b slot.1 i slot.2).2] at present ⊢
      exact known b slot.1 i slot.2 present) ⟨10,start.2.1⟩ keyF start.2.2
    have run : Relation.ReflTransGen (SoloStep sampleConfig 0)
        (endState sampleConfig (crowdedCall key))
        (endState sampleConfig (crowdedCall key ++ crowdedSteps n)) := by
      refine Relation.ReflTransGen.mono ?_ _ _ (endState_between _ _ _ begins goes)
      rintro s t ⟨mover,⟨rfl,busy⟩,moved⟩
      exact ⟨busy,moved⟩
    have lands := alone.lands (fun u outcome => outcome.imp And.left And.left) run ended.2
    rcases lands with ⟨aborted,-⟩ | ⟨-,inserted⟩
    · exact absurd aborted (Bool.eq_false_iff.mp ended.1)
    · exact inserted
  obtain ⟨yes,moved⟩ := inserted keyA 16 (by decide +kernel) (by decide +kernel) (by decide +kernel)
    (by decide +kernel) (by decide +kernel) (by decide +kernel)
  obtain ⟨no,refused⟩ := inserted keyF 80 (by decide +kernel) (by decide +kernel)
    (by decide +kernel) (by decide +kernel) (by decide +kernel) (by decide +kernel)
  have told : ∀ answer, (endState sampleConfig (crowdedCall keyA ++ crowdedSteps 16)).memory.returned =
      (0,.insert keyF,.truth answer) :: (endState sampleConfig (crowdedCall keyA)).memory.returned →
      answer = true := by decide +kernel
  have told' : ∀ answer, (endState sampleConfig (crowdedCall keyF ++ crowdedSteps 80)).memory.returned =
      (0,.insert keyF,.truth answer) :: (endState sampleConfig (crowdedCall keyF)).memory.returned →
      answer = false := by decide +kernel
  obtain rfl := told yes moved.returned
  obtain rfl := told' no refused.returned
  exact ⟨moved,by decide +kernel,refused⟩

end CuckooFilter.LockFree
