import CuckooFilter.LockFreeAbort
import CuckooFilter.LockFreeSingle

/-! How high the counters go. A counter never exceeds the raises so far, and the process
lives until there have been 65535 of them. A single thread gets there: an entry that goes
back and forth between its two buckets takes both counters up with every hop. -/
namespace CuckooFilter.LockFree

variable {cfg : Config} {tid : Nat} {s t : System} {m n : Memory} {b c i : Nat}

/-- An aborted process stands before the request that stopped it. -/
def Stopped (s : System) : Prop :=
  ∃ tid frame counter, (s.control tid).help? = some frame ∧
    frame.counterRequest = some counter ∧ 65535 < counter

theorem reachable_stopped (reachable : Reachable cfg s) (aborted : s.memory.aborted = true) :
    Stopped s := by
  cases reachable with
  | refl => simp [System.initial,Memory.initial] at aborted
  | tail _ last =>
    obtain ⟨tid,-,moved⟩ := last
    obtain ⟨⟨frame,inside,counter,request,beyond⟩,same⟩ := step_aborts moved aborted
    exact ⟨tid,frame,counter,same ▸ inside,request,beyond⟩

theorem reachable_request (reachable : Reachable cfg s)
    (inside : (s.control tid).help? = some frame)
    (request : frame.counterRequest = some counter) : counter ≤ s.memory.raises + 1 := by
  refine request_le ?_ request
  intro cell member
  exact (reachable_covered reachable).cells tid cell (help_held inside ▸ member)

/-- Every counter a relocation asks for is at most one above the raises so far; the process
aborts only on such a request above `UINT16_MAX`, and not before 65535 raises. -/
theorem requests_bounded (reachable : Reachable cfg s) :
    (∀ b i, getCounter (s.memory.hashTable b i) ≤ s.memory.raises) ∧
    (∀ tid frame counter, (s.control tid).help? = some frame →
      frame.counterRequest = some counter → counter ≤ s.memory.raises + 1) ∧
    (s.memory.aborted = true → Stopped s ∧ 65535 ≤ s.memory.raises) := by
  refine ⟨(reachable_covered reachable).slots,?_,?_⟩
  · intro tid frame counter inside request
    exact reachable_request reachable inside request
  · intro aborted
    obtain ⟨tid,frame,counter,inside,request,beyond⟩ := reachable_stopped reachable aborted
    have bound := reachable_request reachable inside request
    exact ⟨⟨tid,frame,counter,inside,request,beyond⟩,by omega⟩

theorem moved_entry_counters :
    (endState sampleConfig movingSchedule).memory.raises = 1 ∧
      (endState sampleConfig movingSchedule).memory.aborted = false := by
  have once : (endState sampleConfig movingSchedule).memory.raises = 1 := by decide +kernel
  refine ⟨once,Bool.eq_false_iff.mpr fun aborted => ?_⟩
  have many := ((requests_bounded (endState_reachable sampleConfig movingSchedule)).2.2 aborted).2
  omega

/-- A key with `c` for both of its buckets. -/
def resident (c : Nat) : Bytes := if c = 0 then keyF else keyC

theorem resident_bucket (inside : c < 2) :
    (jenkinsHash (resident c)).toNat % 2 = c ∧
      getNextHashIndex 2 c (sampleMd5 (resident c)) = c := by
  obtain rfl | rfl : c = 0 ∨ c = 1 := by omega
  · decide +kernel
  · decide +kernel

theorem mover_bucket (inside : c < 2) : getNextHashIndex 2 c (sampleMd5 keyA) = 1 - c := by
  obtain rfl | rfl : c = 0 ∨ c = 1 := by omega
  · decide +kernel
  · decide +kernel

/-- `a` is in slot 0 of bucket `b` and `beside` is in slot 0 of the other bucket; every
other slot has a resident of its bucket. -/
structure Swinging (b : Nat) (beside : Option Bytes) (m : Memory) : Prop where
  bucket : b < 2
  clean : m.Clean sampleConfig
  mover : m.fingerprint b 0 = some (sampleMd5 keyA)
  beside : m.fingerprint (1 - b) 0 = beside
  pinned : ∀ c < 2, ∀ i < numItemsPerEntry, i ≠ 0 →
    m.fingerprint c i = some (sampleMd5 (resident c))

theorem Swinging.alike (swinging : Swinging b x m) (same : Alike m n) : Swinging b x n := by
  obtain ⟨bucket,clean,mover,beside,pinned⟩ := swinging
  rw [← fingerprint_alike same] at mover beside pinned
  exact ⟨bucket,clean.table same.table,mover,beside,pinned⟩

theorem Swinging.allocate (swinging : Swinging b x m) (fresh : m.Fresh address)
    (known : ∀ b i, getRealPointer (m.hashTable b i) ≠ 0 →
      m.heap (getRealPointer (m.hashTable b i)) ≠ none) (string : Bytes) :
    Swinging b x (m.allocate address string) := by
  obtain ⟨bucket,clean,mover,beside,pinned⟩ := swinging
  rw [← fingerprint_allocate fresh known string] at mover beside pinned
  exact ⟨bucket,clean.table rfl,mover,beside,pinned⟩

theorem Swinging.write (swinging : Swinging b x m) (clean : (m.write (1 - b) 0 word).Clean sampleConfig) :
    Swinging b ((m.write (1 - b) 0 word).fingerprint (1 - b) 0) (m.write (1 - b) 0 word) := by
  have bucket := swinging.bucket
  refine ⟨bucket,clean,?_,rfl,?_⟩
  · rw [fingerprint_write m word (by omega)]
    exact swinging.mover
  · intro c inside i slot other
    rw [fingerprint_write m word (fun same => other same.2)]
    exact swinging.pinned c inside i slot other

theorem Swinging.alternate (swinging : Swinging b x m) :
    m.alternate sampleConfig b 0 = 1 - b := by
  rw [alternate_held swinging.mover]
  exact mover_bucket swinging.bucket

theorem Swinging.shifted (swinging : Swinging b none m) (shifted : Shifted sampleConfig m n b 0) :
    Swinging (1 - b) none n := by
  have bucket := swinging.bucket
  have back : 1 - (1 - b) = b := by omega
  have target := shifted.target.1
  have others := shifted.others
  rw [swinging.alternate] at target others
  have str : n.str = m.str := by
    funext entry
    simp only [Memory.str,shifted.heap]
  refine ⟨by omega,shifted.clean swinging.clean,?_,?_,?_⟩
  · have mover := fingerprint_some.mp swinging.mover
    refine fingerprint_some.mpr ?_
    rw [target,str]
    exact mover
  · rw [back]
    exact fingerprint_none.mpr shifted.source.1
  · intro c inside i slot other
    rw [← swinging.pinned c inside i slot other]
    have same := others c i (fun here => other here.2) (fun there => other there.2)
    simp only [Memory.fingerprint,same,str]

/-- Residents stay: their chains go round in one bucket. -/
theorem Swinging.stays (swinging : Swinging b x m) (inside : c < 2) (slot : i < numItemsPerEntry)
    (other : i ≠ 0) : ¬Leads sampleConfig m c i d := by
  intro leads
  have here := swinging.pinned c inside i slot other
  have fixed : m.alternate sampleConfig c i = c := by
    rw [alternate_held here]
    exact (resident_bucket inside).2
  have hop : m.hop sampleConfig c i d = c := Function.iterate_fixed fixed d
  have empty := leads.1
  rw [show (m.alternate sampleConfig · i)^[d] c = c from hop] at empty
  exact (fingerprint_some.mp here).1 empty

theorem Swinging.leads (swinging : Swinging b none m) : Leads sampleConfig m b 0 1 := by
  refine ⟨?_,?_⟩
  · show getRealPointer (m.hashTable (m.alternate sampleConfig b 0) 0) = 0
    rw [swinging.alternate]
    exact fingerprint_none.mp swinging.beside
  · intro j early
    obtain rfl : j = 0 := by omega
    exact (fingerprint_some.mp swinging.mover).1

theorem enter_resident (inside : b < 2) : (InsertFrame.enter sampleConfig (resident b)).hash1 = b ∧
    (InsertFrame.enter sampleConfig (resident b)).hash2 = b := by
  obtain ⟨home,other⟩ := resident_bucket inside
  have first : (InsertFrame.enter sampleConfig (resident b)).hash1 = b := home
  refine ⟨first,?_⟩
  show getNextHashIndex 2 (InsertFrame.enter sampleConfig (resident b)).hash1 _ = b
  rw [first]
  exact other

/-- The insertion has not moved anything yet, or has sent the mover away. -/
structure Turning (b : Nat) (start m : Memory) : Prop where
  bucket : b < 2
  heap : m.heap = start.heap
  phase : Swinging b none m ∧ m.slack sampleConfig = start.slack sampleConfig ∨
    Swinging (1 - b) none m ∧ m.slack sampleConfig < start.slack sampleConfig

/-- The insertion is over and has put a resident where the mover was. -/
def Turned (b : Nat) (start : Memory) (t : System) : Prop :=
  t.memory.aborted = true ∨ t.control 0 = .idle ∧ t.memory.heap = start.heap ∧
    Swinging (1 - b) (some (sampleMd5 (resident b))) t.memory ∧
    t.memory.slack sampleConfig < start.slack sampleConfig

theorem Turning.steady (turning : Turning b start m) (steady : Steady m n)
    (table : n.hashTable = m.hashTable) : Turning b start n := by
  have same : Alike m n := ⟨table,steady.heap⟩
  obtain ⟨bucket,heap,⟨swinging,level⟩ | ⟨swinging,less⟩⟩ := turning
  · exact ⟨bucket,same.heap.trans heap,.inl ⟨swinging.alike same,(slack_table table).trans level⟩⟩
  · exact ⟨bucket,same.heap.trans heap,
      .inr ⟨swinging.alike same,(slack_table table).trans_lt less⟩⟩

theorem Turning.shifted (turning : Turning b start m) (inside : i < numItemsPerEntry)
    (leads : Leads sampleConfig m b i (d + 1))
    (shifted : Shifted sampleConfig m n (m.hop sampleConfig b i d) i)
    (less : n.slack sampleConfig < m.slack sampleConfig) : Turning b start n := by
  obtain ⟨bucket,heap,⟨swinging,level⟩ | ⟨swinging,-⟩⟩ := turning
  · by_cases other : i = 0
    · subst other
      obtain rfl : d = 0 := by
        have once := leads.unique swinging.leads
        omega
      exact ⟨bucket,shifted.heap.trans heap,.inr ⟨swinging.shifted shifted,level ▸ less⟩⟩
    · exact absurd leads (swinging.stays bucket inside other)
  · by_cases other : i = 0
    · subst other
      have back : 1 - (1 - b) = b := by omega
      have gap : m.fingerprint b 0 = none := back ▸ swinging.beside
      exact absurd (fingerprint_none.mp gap) (leads.2 0 (by omega))
    · exact absurd leads (swinging.stays bucket inside other)

theorem Swinging.full (swinging : Swinging b x m) (inside : i < numItemsPerEntry) :
    getRealPointer (m.hashTable b i) ≠ 0 := by
  by_cases other : i = 0
  · subst other
    exact (fingerprint_some.mp swinging.mover).1
  · exact (fingerprint_some.mp (swinging.pinned b swinging.bucket i inside other)).1

theorem turning_inserting (start : Memory) (s : System) {f : InsertFrame} (bucket : b < 2)
    (home : ∀ second, f.bucket second = b) (string : f.fingerprint = sampleMd5 (resident b)) :
    Inserting sampleConfig 0 s f (Reachable sampleConfig) (Turned b start) (Turning b start) where
  setting := Aborting.reachable fun _ aborted => .inl aborted
  first := by
    have first : f.hash1 = b := home false
    rw [first]
    exact bucket
  unmarked m turning := by
    rcases turning.phase with ⟨swinging,-⟩ | ⟨swinging,-⟩
    · exact swinging.clean.unmarked
    · exact swinging.clean.unmarked
  steady m n turning steady table := turning.steady steady table
  shifted m n d i turning steady inside _ leads shifted less := by
    have first : f.hash1 = b := home false
    rw [first] at leads shifted
    exact turning.shifted inside leads shifted less
  stored m second i word turning reachable inside empty created := by
    have placing := home_placing reachable inside empty created
    rw [home second] at empty created
    obtain ⟨-,heap,⟨swinging,-⟩ | ⟨swinging,less⟩⟩ := turning
    · exact absurd empty (swinging.full inside)
    have back : 1 - (1 - b) = b := by omega
    obtain rfl : i = 0 := by
      by_contra other
      exact (fingerprint_some.mp (swinging.pinned b bucket i inside other)).1 empty
    have clean : (m.write (1 - (1 - b)) 0 word).Clean sampleConfig :=
      put_clean swinging.clean placing.unmarked (placing.real ▸ placing.absent)
    have put := swinging.write clean
    rw [back] at put
    have name : (m.write b 0 word).fingerprint b 0 = some (sampleMd5 (resident b)) := by
      refine fingerprint_some.mpr ?_
      rw [write_here,placing.real,← string]
      refine ⟨placing.present,?_⟩
      simp [Memory.str,Memory.write,placing.string]
    rw [name] at put
    have kept : (m.write b 0 word).slack sampleConfig ≤ m.slack sampleConfig := by
      refine slack_write_le ?_
      have fits : Fits f.newEntry := placing.real ▸ getRealPointer_fits word
      rw [createPointer_counter created fits]
    have same : Alike (m.write b 0 word) (f.placed 0 m second 0 word) := by
      rw [← home second]
      exact ⟨rfl,rfl⟩
    refine .inr ⟨put_control s 0 _,heap,put.alike same,?_⟩
    exact (slack_table same.table).trans_lt (kept.trans_lt less)
  refused m turning crowded closed := by
    have first : f.hash1 = b := home false
    obtain ⟨-,heap,⟨swinging,-⟩ | ⟨swinging,-⟩⟩ := turning
    · refine absurd swinging.leads ?_
      rw [← first]
      exact closed 0 (by decide) trivial 1 (by decide)
    · have back : 1 - (1 - b) = b := by omega
      have gap : m.fingerprint b 0 = none := back ▸ swinging.beside
      have full := crowded false 0 (by decide)
      rw [home false] at full
      exact absurd (fingerprint_none.mp gap) full

/-- The removal is over and has emptied the slot beside the mover. -/
def Swung (b : Nat) (start : Memory) (t : System) : Prop :=
  t.memory.aborted = true ∨ t.control 0 = .idle ∧ t.memory.heap = start.heap ∧
    Swinging (1 - b) none t.memory ∧
    t.memory.slack sampleConfig ≤ start.slack sampleConfig

theorem swung_setting (b : Nat) (start : Memory) :
    Setting sampleConfig 0 (Reachable sampleConfig) (Swung b start) :=
  Aborting.reachable fun _ aborted => .inl aborted

theorem taken_alone {f : RemoveFrame} (bucket : b < 2)
    (swinging : Swinging (1 - b) (some (sampleMd5 (resident b))) m) (home : f.hashVal 0 = b)
    (reachable : Reachable sampleConfig
      (s.put 0 (m,.remove (f.goto (.cas 0 (m.hashTable b 0)))))) :
    Alone sampleConfig 0 (Swung b m) (s.put 0 (m,.remove (f.goto (.cas 0 (m.hashTable b 0))))) := by
  have back : 1 - (1 - b) = b := by omega
  have here : m.hashTable (f.hashVal 0) (0 % numItemsPerEntry) = m.hashTable b 0 :=
    congrArg (m.hashTable · 0) home
  obtain ⟨word,created⟩ := createPointer_exists (getCounter_le (m.hashTable b 0)) 0 false
  refine Alone.step (swung_setting b m) reachable (determined_cas _ _ _)
    (advance_take here created) ?_
  intro _
  have null : getRealPointer word = 0 := createPointer_real created null_fits
  have clean : (m.write (1 - (1 - b)) 0 word).Clean sampleConfig :=
    take_clean swinging.clean (createPointer_marked created null_fits) null
  have taken := swinging.write clean
  rw [back,fingerprint_none.mpr (by rw [write_here,null])] at taken
  have less : (m.write b 0 word).slack sampleConfig ≤ m.slack sampleConfig := by
    refine slack_write_le ?_
    rw [createPointer_counter created null_fits]
  have same : Alike (m.write b 0 word) (f.taken 0 m 0 (m.hashTable b 0) word) := by
    rw [← home]
    exact ⟨rfl,rfl⟩
  refine .reached (.inr ⟨put_control s 0 _,rfl,taken.alike same,?_⟩)
  exact (slack_table same.table).trans_le less

theorem removal_alone (bucket : b < 2)
    (swinging : Swinging (1 - b) (some (sampleMd5 (resident b))) m) (s : System)
    (reachable : Reachable sampleConfig
      (s.put 0 (m,.remove (.enter sampleConfig (resident b))))) :
    Alone sampleConfig 0 (Swung b m) (s.put 0 (m,.remove (.enter sampleConfig (resident b)))) := by
  have back : 1 - (1 - b) = b := by omega
  have home : (FindFrame.enter sampleConfig (resident b)).hash1 = b := (resident_bucket bucket).1
  have hits : Hits m (sampleMd5 (resident b)) (FindFrame.enter sampleConfig (resident b)).hash1 0 := by
    rw [home,swinging.clean.hits ⟨bucket,by decide⟩,← swinging.beside,back]
  refine Alone.call (removeSite sampleConfig 0 (.enter sampleConfig (resident b)))
    (swung_setting b m) reachable (find_home swinging.clean (resident b) hits) ?_
  rintro n flow ⟨alike,rfl⟩ reached
  have slot : (RemoveFrame.enter sampleConfig (resident b)).hashVal 0 = b := home
  rw [home,← alike.table] at reached ⊢
  refine (taken_alone bucket (swinging.alike alike) slot reached).mono ?_
  rintro t (aborted | ⟨idle,heap,onward,less⟩)
  · exact .inl aborted
  · exact .inr ⟨idle,heap.trans alike.heap,onward,less.trans_eq (slack_table alike.table)⟩

abbrev Ran (s : System) : Prop :=
  Relation.ReflTransGen (StepBy sampleConfig 0) System.initial s

theorem Ran.alone (ran : Ran s) (alone : Alone sampleConfig 0 goal s) : ∃ t, Ran t ∧ goal t := by
  obtain ⟨t,run,here⟩ := alone.exists_run
  refine ⟨t,ran.trans ?_,here⟩
  exact Relation.ReflTransGen.mono (fun _ _ moved => moved.2) _ _ run

theorem invoke_moves (idle : s.control tid = .idle) (live : s.memory.aborted = false) (call : Call) :
    StepBy cfg tid s (s.put tid (invoke cfg tid s.memory call)) := by
  refine ⟨.invoke call,?_⟩
  simp only [step,live,idle,threadStep]
  rfl

theorem Ran.turns (ran : Ran s) (idle : s.control 0 = .idle) (live : s.memory.aborted = false)
    (swinging : Swinging b none s.memory) (fresh : s.memory.Fresh address) :
    ∃ t, Ran t ∧ Turned b (s.memory.allocate address (sampleMd5 (resident b))) t := by
  have bucket := swinging.bucket
  obtain ⟨first,second⟩ := enter_resident bucket
  have called : Ran (s.put 0 (s.memory.clearHazard 0,
      .insert ((InsertFrame.enter sampleConfig (resident b)).goto .allocate))) :=
    ran.tail (invoke_moves idle live (.insert (resident b)))
  have given : SoloStep sampleConfig 0 (s.put 0 (s.memory.clearHazard 0,
        .insert ((InsertFrame.enter sampleConfig (resident b)).goto .allocate)))
      (s.put 0 ((s.memory.clearHazard 0).allocate address (sampleMd5 (resident b)),
        .insert (InsertFrame.home { InsertFrame.enter sampleConfig (resident b) with
          newEntry := address }))) :=
    allocate_moves.mpr ⟨live,address,fresh,rfl⟩
  have placing := called.tail given.2
  have start : Turning b (s.memory.allocate address (sampleMd5 (resident b)))
      ((s.memory.clearHazard 0).allocate address (sampleMd5 (resident b))) := by
    have known := (reachable_sound (single_reachable ran)).slots
    have called : Swinging b none (s.memory.clearHazard 0) := swinging.alike (.clearHazard _ 0)
    exact ⟨bucket,rfl,.inl ⟨called.allocate fresh known _,slack_table rfl⟩⟩
  refine Ran.alone placing ((turning_inserting _ s bucket ?_ rfl).alone start
    (single_reachable placing))
  rintro (_ | _)
  · exact first
  · exact second

theorem Ran.swings (ran : Ran s) (idle : s.control 0 = .idle)
    (swinging : Swinging b none s.memory) (fresh : s.memory.Fresh address) :
    ∃ t, Ran t ∧ (t.memory.aborted = true ∨ t.control 0 = .idle ∧
      t.memory.heap = (s.memory.allocate address (sampleMd5 (resident b))).heap ∧
      Swinging (1 - b) none t.memory ∧ t.memory.slack sampleConfig < s.memory.slack sampleConfig) := by
  have bucket := swinging.bucket
  cases live : s.memory.aborted with
  | true => exact ⟨s,ran,.inl live⟩
  | false =>
    obtain ⟨t,turned,aborted | ⟨rests,heap,onward,less⟩⟩ := ran.turns idle live swinging fresh
    · exact ⟨t,turned,.inl aborted⟩
    cases alive : t.memory.aborted with
    | true => exact ⟨t,turned,.inl alive⟩
    | false =>
      have called : Ran (t.put 0 (t.memory.clearHazard 0,
          .remove (.enter sampleConfig (resident b)))) :=
        turned.tail (invoke_moves rests alive (.remove (resident b)))
      obtain ⟨u,swung,aborted | ⟨stands,same,away,level⟩⟩ := Ran.alone called
        (removal_alone bucket (onward.alike (.clearHazard _ 0)) t (single_reachable called))
      · exact ⟨u,swung,.inl aborted⟩
      · exact ⟨u,swung,.inr ⟨stands,same.trans heap,away,level.trans_lt less⟩⟩

/-- The addresses in use are the first `k` that `new` has given. -/
def Memory.Used (m : Memory) (k : Nat) : Prop :=
  ∀ address, m.heap address ≠ none → address.toNat ≤ 2 * k

theorem Memory.Used.fresh (used : m.Used k) (small : k < 1000000) :
    m.Fresh (BitVec.ofNat 64 (2 * (k + 1))) := by
  have value : (BitVec.ofNat 64 (2 * (k + 1))).toNat = 2 * (k + 1) := by
    rw [BitVec.toNat_ofNat]
    omega
  refine ⟨?_,fits_even (by omega),?_⟩
  · intro zero
    rw [zero] at value
    simp at value
  · by_contra allocated
    have bound := used _ allocated
    omega

theorem Memory.Used.allocate (used : m.Used k) (small : k < 1000000)
    (heap : n.heap = (m.allocate (BitVec.ofNat 64 (2 * (k + 1))) string).heap) :
    n.Used (k + 1) := by
  intro address allocated
  by_cases given : address = BitVec.ofNat 64 (2 * (k + 1))
  · rw [given,BitVec.toNat_ofNat]
    omega
  · rw [heap] at allocated
    have before : m.heap address ≠ none := by simpa [Memory.allocate,given] using allocated
    have bound := used address before
    omega

/-- Every swing uses an address and some of the slack; the slack comes to an end first. -/
theorem Ran.aborts (ran : Ran s) (idle : s.control 0 = .idle)
    (swinging : Swinging b none s.memory) (used : s.memory.Used k)
    (room : k + s.memory.slack sampleConfig < 1000000) :
    ∃ t, Ran t ∧ t.memory.aborted = true := by
  induction left : s.memory.slack sampleConfig using Nat.strongRecOn generalizing s b k with
  | ind size ih =>
    have small : k < 1000000 := by omega
    obtain ⟨t,onward,aborted | ⟨rests,heap,away,less⟩⟩ :=
      ran.swings idle swinging (used.fresh small)
    · exact ⟨t,onward,aborted⟩
    · exact ih _ (left ▸ less) onward rests away (used.allocate small heap) (by omega) rfl

/-- `a` in slot 0 of bucket 0, slot 0 of bucket 1 emptied, every other slot with a resident. -/
def swingSchedule : List (Nat × Action) :=
  inserts 0 keyA 2 2 ++ inserts 0 keyF 4 4 ++ inserts 0 keyF 6 6 ++ inserts 0 keyF 8 8 ++
    inserts 0 keyC 10 2 ++ inserts 0 keyC 12 4 ++ inserts 0 keyC 14 6 ++ inserts 0 keyC 16 8 ++
    [(0,.invoke (.remove keyC))] ++ runs 0 3

theorem swing_used : (endState sampleConfig swingSchedule).memory.Used 8 := by
  intro address allocated
  have possible : (execute sampleConfig swingSchedule System.initial).isSome = true := by
    decide +kernel
  obtain ⟨t,executed⟩ := Option.isSome_iff_exists.mp possible
  have last : endState sampleConfig swingSchedule = t := by
    rw [endState,executed]
    rfl
  rw [last] at allocated
  rcases execute_allocates swingSchedule _ t executed allocated with before | ⟨tid,member⟩
  · exact absurd rfl before
  · simp only [swingSchedule,inserts,runs,List.mem_append,List.mem_cons,List.mem_replicate,
      Prod.mk.injEq,Action.allocate.injEq,reduceCtorEq,List.not_mem_nil,and_false,false_or,
      or_false] at member
    rcases member with ((((((⟨-,rfl⟩ | ⟨-,rfl⟩) | ⟨-,rfl⟩) | ⟨-,rfl⟩) | ⟨-,rfl⟩) | ⟨-,rfl⟩) |
      ⟨-,rfl⟩) | ⟨-,rfl⟩
    all_goals decide

theorem swing_begins : ∃ s, Ran s ∧ s.control 0 = .idle ∧ Swinging 0 none s.memory ∧
    s.memory.Used 8 := by
  have run : Ran (endState sampleConfig swingSchedule) :=
    endState_single 0 swingSchedule (by decide +kernel)
  have idle : (endState sampleConfig swingSchedule).control 0 = .idle := by decide +kernel
  have balanced := (idle_upheld (balanced_upheld (e := 1) rfl 0) (balanced_initial _) run idle).1
  exact ⟨_,run,idle,
    ⟨by decide,balanced.clean,by decide +kernel,by decide +kernel,by decide +kernel⟩,swing_used⟩

theorem sample_slack_le (m : Memory) : m.slack sampleConfig ≤ 524280 := by
  have bound : m.slack sampleConfig ≤ Memory.initial.slack sampleConfig :=
    slack_le (by simp [Memory.initial])
  have value : Memory.initial.slack sampleConfig = 524280 := by
    simp [Memory.slack,Memory.initial,sampleConfig,numItemsPerEntry]
  omega

/-- One thread alone takes the counters to their end. -/
theorem counter_overflows : ¬∀ (cfg : Config) (tid : Nat) (s : System),
    Relation.ReflTransGen (StepBy cfg tid) System.initial s →
      ¬Stopped s ∧ s.memory.aborted = false := by
  intro lives
  obtain ⟨s,run,idle,swinging,used⟩ := swing_begins
  have bound := sample_slack_le s.memory
  obtain ⟨t,later,aborted⟩ := run.aborts idle swinging used (by omega)
  exact (lives sampleConfig 0 t later).1 (reachable_stopped (single_reachable later) aborted)

end CuckooFilter.LockFree
