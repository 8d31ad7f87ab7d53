import CuckooFilter.FineGrainedStep
import CuckooFilter.SlotProgram

/-! The filter with one mutex for every eighth bucket, access by access. Insertions and
removals take the mutexes exclusively and searches take them shared, one at a time. The swap
of the kick loop reads and writes its slot under none. -/
namespace CuckooFilter.FineGrained

def mutexesSize : Nat := 8

def mutexOf (bucket : Nat) : Nat := bucket % mutexesSize

def slotMutex (slot : Slot) : Nat := mutexOf slot.1

/-- A scan of a bucket under its mutex, with what comes after a miss. -/
def lockedScan (mode : Locking.Mode) (test : Bytes → Bool) (bucket : Nat) (hit : Nat → Code Nat)
    (miss : Code Nat) : Code Nat :=
  .acquire (mutexOf bucket) mode (scanCode test bucket hit (.release (mutexOf bucket) miss))

/-- The fingerprint goes into the first empty slot. -/
def storeCode (bucket : Nat) (fingerprint : Bytes) (full : Code Nat) : Code Nat :=
  lockedScan .exclusive List.isEmpty bucket
    (fun i => .write (bucket,i) fingerprint (leave (mutexOf bucket) true)) full

def lookCode (bucket : Nat) (fingerprint : Bytes) (miss : Code Nat) : Code Nat :=
  lockedScan .shared (· = fingerprint) bucket (fun _ => leave (mutexOf bucket) true) miss

def clearCode (bucket : Nat) (fingerprint : Bytes) (miss : Code Nat) : Code Nat :=
  lockedScan .exclusive (fun str => str.length ≠ 0 ∧ str = fingerprint) bucket
    (fun i => .write (bucket,i) [] (leave (mutexOf bucket) true)) miss

variable (cfg : Config)

/-- The replace phase, `left` kicks before the end. -/
def kickCode (fingerprint : Bytes) (replaceHash : Nat) : Nat → Code Nat
  | 0 => .done false
  | left + 1 => .choose fun rand =>
    let bucketIdx := rand % numItemsPerEntry
    .read (replaceHash,bucketIdx) fun victim =>
    let nextHash := getNextHashIndex cfg.tableSize replaceHash victim
    .write (replaceHash,bucketIdx) fingerprint
      (storeCode nextHash victim (kickCode victim nextHash left))

/-- `rand()` for `flag` and the replace phase. -/
def replaceCode (fingerprint : Bytes) (hash1 hash2 : Nat) : Code Nat :=
  .choose fun rand => kickCode cfg fingerprint (if rand % 2 = 0 then hash1 else hash2) numMaxKicks

def insertCode (key : Bytes) : Code Nat :=
  let fingerprint := cfg.md5Fingerprint key
  let hash1 := cfg.hash1 key
  let hash2 := cfg.hash2 key
  storeCode hash1 fingerprint (storeCode hash2 fingerprint
    (replaceCode cfg fingerprint hash1 hash2))

def findCode (key : Bytes) : Code Nat :=
  let fingerprint := cfg.md5Fingerprint key
  lookCode (cfg.hash1 key) fingerprint (lookCode (cfg.hash2 key) fingerprint (.done false))

def removeCode (key : Bytes) : Code Nat :=
  let fingerprint := cfg.md5Fingerprint key
  clearCode (cfg.hash1 key) fingerprint (clearCode (cfg.hash2 key) fingerprint (.done false))

def code : Call → Code Nat
  | .insert key => insertCode cfg key
  | .find key => findCode cfg key
  | .remove key => removeCode cfg key

abbrev Threads := Locking.System Call Nat Slot Bytes Bool

/-- Any interleaving of the accesses of any number of threads on an empty table. -/
def Interleaved (s : Threads) : Prop := Locking.Reachable (code cfg) (fun _ => []) s

/-- The second half: the slot gets the fingerprint in hand. -/
def swapWrite (fingerprint : Bytes) (replaceHash bucketIdx : Nat) (victim : Bytes) (left : Nat) :
    Code Nat :=
  .write (replaceHash,bucketIdx) fingerprint
    (storeCode (getNextHashIndex cfg.tableSize replaceHash victim) victim
      (kickCode cfg victim (getNextHashIndex cfg.tableSize replaceHash victim) left))

def swapRead (fingerprint : Bytes) (replaceHash bucketIdx left : Nat) : Code Nat :=
  .read (replaceHash,bucketIdx) fun victim =>
    swapWrite cfg fingerprint replaceHash bucketIdx victim left

theorem kick_succ (fingerprint : Bytes) (replaceHash left : Nat) :
    kickCode cfg fingerprint replaceHash (left + 1) = .choose fun rand =>
      swapRead cfg fingerprint replaceHash (rand % numItemsPerEntry) left := rfl

/-- An insertion at one of the two accesses of a swap. -/
def Swaps : Call → Code Nat → Prop
  | .insert _,program => ∃ fingerprint replaceHash bucketIdx left,
    program = swapRead cfg fingerprint replaceHash bucketIdx left ∨
      ∃ victim, program = swapWrite cfg fingerprint replaceHash bucketIdx victim left
  | _,_ => False

variable {cfg} {bare : Code Nat → Prop} {s : Threads}

theorem lockedScan_disciplined {hit : Nat → Code Nat} {miss : Code Nat}
    (found : ∀ i, Locking.Disciplined slotMutex bare (some (mutexOf bucket,mode)) (hit i))
    (missed : Locking.Disciplined slotMutex bare none miss) :
    Locking.Disciplined slotMutex bare none (lockedScan mode test bucket hit miss) :=
  ⟨rfl,scan_disciplined (fun _ => rfl) found ⟨⟨mode,rfl⟩,missed⟩⟩

theorem store_disciplined (full : Locking.Disciplined slotMutex bare none miss) :
    Locking.Disciplined slotMutex bare none (storeCode bucket fingerprint miss) :=
  lockedScan_disciplined (fun _ => ⟨.inr rfl,⟨_,rfl⟩,rfl⟩) full

theorem look_disciplined (missed : Locking.Disciplined slotMutex bare none miss) :
    Locking.Disciplined slotMutex bare none (lookCode bucket fingerprint miss) :=
  lockedScan_disciplined (fun _ => ⟨⟨_,rfl⟩,rfl⟩) missed

theorem clear_disciplined (missed : Locking.Disciplined slotMutex bare none miss) :
    Locking.Disciplined slotMutex bare none (clearCode bucket fingerprint miss) :=
  lockedScan_disciplined (fun _ => ⟨.inr rfl,⟨_,rfl⟩,rfl⟩) missed

theorem kick_disciplined (key : Bytes) (left : Nat) :
    Locking.Disciplined slotMutex (Swaps cfg (.insert key)) none
      (kickCode cfg fingerprint replaceHash left) := by
  induction left generalizing fingerprint replaceHash with
  | zero => exact rfl
  | succ left ih =>
    rw [kick_succ]
    intro rand
    refine ⟨.inl ⟨rfl,_,_,_,_,.inl rfl⟩,fun victim => ?_⟩
    exact ⟨.inl ⟨rfl,_,_,_,_,.inr ⟨victim,rfl⟩⟩,store_disciplined ih⟩

theorem code_disciplined (call : Call) :
    Locking.Disciplined slotMutex (Swaps cfg call) none (code cfg call) := by
  cases call with
  | insert key =>
    exact store_disciplined (store_disciplined fun _ => kick_disciplined key numMaxKicks)
  | find key => exact look_disciplined (look_disciplined rfl)
  | remove key => exact clear_disciplined (clear_disciplined rfl)

theorem interleaved_sound (interleaved : Interleaved cfg s) :
    Locking.Sound slotMutex (Swaps cfg) s := Locking.run_sound code_disciplined interleaved

/-- In any interleaving, of two threads about to access one slot, one of them to write it,
one is an insertion at the swap of its kick loop that holds no mutex. -/
theorem races_at_swaps (interleaved : Interleaved cfg s) (apart : tid ≠ other)
    (first : (s.threads tid).access? = some (slot,writes))
    (second : (s.threads other).access? = some (slot,writes'))
    (conflict : writes = true ∨ writes' = true) :
    s.Bare (Swaps cfg) tid ∨ s.Bare (Swaps cfg) other :=
  Locking.race_bare (interleaved_sound interleaved) apart first second conflict

def calls (tid : Nat) (call : Call) (n : Nat) : List (Nat × Locking.Action Call) :=
  (tid,.invoke call) :: Locking.runs tid n

/-- Thread 0 fills bucket 0; threads 1 and 2 have read slot 0 of it and are about to write it. -/
def racingSchedule : List (Nat × Locking.Action Call) :=
  calls 0 (.insert keyA) 5 ++ calls 0 (.insert keyA) 6 ++ calls 0 (.insert keyA) 7 ++
    calls 0 (.insert keyA) 8 ++ calls 1 (.insert keyF) 15 ++ calls 2 (.insert keyF) 15

def racingState : Threads :=
  Locking.endState (code sampleConfig) (fun _ _ => True) (fun _ => []) racingSchedule

theorem racing_interleaved : Interleaved sampleConfig racingState :=
  Locking.endState_run racingSchedule (by decide +kernel)

theorem racing_swaps : racingState.Bare (Swaps sampleConfig) 1 ∨
    racingState.Bare (Swaps sampleConfig) 2 :=
  have first : (racingState.threads 1).access? = some ((0,0),true) := by decide +kernel
  have second : (racingState.threads 2).access? = some ((0,0),true) := by decide +kernel
  races_at_swaps racing_interleaved (by decide) first second (.inl rfl)

/-- No schedule keeps the calls in progress from ending, with all mutexes free at the end. -/
theorem calls_complete (interleaved : Interleaved cfg s) :
    Transition.Inevitable
      (fun s t => ∃ tid choice, Locking.step (code cfg) s tid (.run choice) = some t)
      (fun s => (∀ tid, s.threads tid = .idle) ∧ ∀ mutex, s.locks mutex = []) s := by
  have sound := interleaved_sound interleaved
  have ends := Locking.completes (code cfg) code_disciplined sound
  refine (ends.keep (Locking.Sound slotMutex (Swaps cfg)) ?_ sound).mono ?_
  · rintro s t sound ⟨tid,choice,moved⟩
    exact Locking.sound_step code_disciplined sound moved
  · exact fun t ⟨idle,sound⟩ => ⟨idle,sound.unlocked idle⟩

theorem racing_completes : Transition.Inevitable
    (fun s t => ∃ tid choice, Locking.step (code sampleConfig) s tid (.run choice) = some t)
    (fun s => (∀ tid, s.threads tid = .idle) ∧ ∀ mutex, s.locks mutex = []) racingState :=
  calls_complete racing_interleaved

end CuckooFilter.FineGrained
