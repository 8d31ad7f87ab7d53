import CuckooFilter.LockFreeChain
import CuckooFilter.LockFreePlacement

/-! What the two steps of a relocation leave behind when nothing interferes: the move
`help_relocate` was called for, or its mark; the slot `relocate` was to empty, or an entry
that moved elsewhere on its path. -/
namespace CuckooFilter.LockFree

variable {cfg : Config} {tid : Nat} {m now n : Memory} {b i d : Nat}

/-- The entry of slot `i` of bucket `b` has moved to its other bucket, or stayed where that
bucket was taken or the same; the source is unmarked and nothing else has changed. -/
structure Completed (cfg : Config) (m : Memory) (b i : Nat) (n : Memory) : Prop where
  unmarked : getMarked (n.hashTable b i) = false
  moved : m.alternate cfg b i ≠ b →
    getRealPointer (m.hashTable (m.alternate cfg b i) i) = 0 ∨
      getRealPointer (m.hashTable (m.alternate cfg b i) i) = getRealPointer (m.hashTable b i) →
    getRealPointer (n.hashTable (m.alternate cfg b i) i) = getRealPointer (m.hashTable b i) ∧
      getRealPointer (n.hashTable b i) ≠ getRealPointer (m.hashTable b i)
  stayed : m.alternate cfg b i = b ∨
      getRealPointer (m.hashTable (m.alternate cfg b i) i) ≠ 0 ∧
      getRealPointer (m.hashTable (m.alternate cfg b i) i) ≠ getRealPointer (m.hashTable b i) →
    getRealPointer (n.hashTable b i) = getRealPointer (m.hashTable b i) ∧
      (m.alternate cfg b i ≠ b →
        getRealPointer (n.hashTable (m.alternate cfg b i) i) ≠ getRealPointer (m.hashTable b i))
  kept : getRealPointer (m.hashTable (m.alternate cfg b i) i) ≠ 0 →
    getRealPointer (m.hashTable (m.alternate cfg b i) i) ≠ getRealPointer (m.hashTable b i) →
    getRealPointer (n.hashTable (m.alternate cfg b i) i) =
      getRealPointer (m.hashTable (m.alternate cfg b i) i)
  others : ∀ b' i', ¬(b' = b ∧ i' = i) → ¬(b' = m.alternate cfg b i ∧ i' = i) →
    n.hashTable b' i' = m.hashTable b' i'

/-- The table with the source marked: what a call works on after its first steps. -/
structure Pending (m : Memory) (b i : Nat) (now : Memory) : Prop where
  marked : getMarked (now.hashTable b i) = true
  source : getRealPointer (now.hashTable b i) = getRealPointer (m.hashTable b i)
  others : ∀ b' i', ¬(b' = b ∧ i' = i) → now.hashTable b' i' = m.hashTable b' i'
  str : now.str = m.str

theorem Pending.alternate (pending : Pending m b i now) :
    now.alternate cfg b i = m.alternate cfg b i := by
  rw [Memory.alternate,pending.source,pending.str,Memory.alternate]

theorem Pending.real (pending : Pending m b i now) (b' i' : Nat) :
    getRealPointer (now.hashTable b' i') = getRealPointer (m.hashTable b' i') := by
  by_cases here : b' = b ∧ i' = i
  · rw [here.1,here.2]
    exact pending.source
  · rw [pending.others b' i' here]

/-- A settled call has completed exactly when it found its destination empty. The two
other outcomes leave the mark, or take the entry away where source and destination are
one slot. -/
theorem Settled.completed_iff (outcome : Settled cfg now b i n) (pending : Pending m b i now)
    (present : getRealPointer (m.hashTable b i) ≠ 0) :
    Completed cfg m b i n ↔ getRealPointer (m.hashTable (m.alternate cfg b i) i) = 0 := by
  cases outcome with
  | @moved word empty _ created emptied table =>
    rename_i vacant
    rw [pending.alternate] at vacant created table
    rw [pending.real] at vacant
    refine iff_of_true ?_ vacant
    have apart : m.alternate cfg b i ≠ b := by
      intro same
      rw [same] at vacant
      exact present vacant
    have arrived : getRealPointer word = getRealPointer (m.hashTable b i) := by
      rw [createPointer_real created (getRealPointer_fits _),pending.source]
    have null : getRealPointer empty = 0 := createPointer_real emptied null_fits
    constructor
    · simp [table,Memory.write_table,createPointer_marked emptied null_fits]
    · intro _ _
      refine ⟨by simp [table,Memory.write_table,apart,arrived],?_⟩
      rw [table,Memory.write_table,if_pos ⟨rfl,rfl⟩,null]
      exact Ne.symm present
    · rintro (same | ⟨full,-⟩)
      · exact absurd same apart
      · exact absurd vacant full
    · exact fun full => absurd vacant full
    · intro b' i' here there
      simp [table,Memory.write_table,here,there,pending.others b' i' here]
  | @erased empty same emptied table =>
    rw [pending.alternate] at same table
    refine iff_of_false ?_ ?_
    · intro completed
      by_cases apart : m.alternate cfg b i = b
      · have stayed := (completed.stayed (.inl apart)).1
        rw [apart] at table
        simp [table,Memory.write_table,createPointer_real emptied null_fits] at stayed
        exact present stayed.symm
      · have unmarked := completed.unmarked
        rw [table,Memory.write_table,if_neg (by simp [Ne.symm apart]),pending.marked] at unmarked
        contradiction
    · rw [← pending.real,same,pending.source]
      exact present
  | stuck full other table =>
    rw [pending.alternate,pending.real] at full
    refine iff_of_false ?_ full
    intro completed
    have unmarked := completed.unmarked
    rw [table,pending.marked] at unmarked
    contradiction

/-- Alone, a call that has an entry to move returns, and has completed its relocation
exactly when the destination was empty. -/
theorem help_completes_iff (cfg : Config) (tid : Nat) (m : Memory) (b i : Nat) (initiator : Bool)
    (present : getRealPointer (m.hashTable b i) ≠ 0)
    (asked : initiator = true ∨ getMarked (m.hashTable b i) = true) :
    Ends (helpRelocate cfg tid) (fun n flow => flow = .returned () ∧
      (Completed cfg m b i n ↔ getRealPointer (m.hashTable (m.alternate cfg b i) i) = 0)) m
      (.running (.enter b i initiator)) := by
  refine (source_alone (f := .enter b i initiator) (.inl rfl) fun _ => present).mono ?_
  rintro n flow ⟨back,effect⟩
  refine ⟨back,?_⟩
  cases effect with
  | nothing unmarked idle table =>
    rcases asked with began | marked
    · exact absurd (idle began) present
    · exact absurd (unmarked.symm.trans marked) (by simp)
  | settled moving outcome => exact outcome.completed_iff ⟨moving.1,rfl,fun _ _ _ => rfl,rfl⟩ present
  | initiated began unmarked _ outcome =>
    refine outcome.completed_iff ⟨?_,?_,?_,rfl⟩ present
    · simp [Memory.write_table]
    · simp [Memory.write_table]
    · intro b' i' other
      rw [Memory.write_table,if_neg other]

/-- Bucket 0 holds `a`, whose other bucket is 1. -/
def loneMemory : Memory :=
  (Memory.initial.allocate 2 (sampleMd5 keyA)).write 0 0 2

/-- Bucket 1 is taken by `c`. -/
def takenMemory : Memory := (loneMemory.allocate 4 (sampleMd5 keyC)).write 1 0 4

theorem lone_entry_moves : Ends (helpRelocate sampleConfig 0) (fun n flow => flow = .returned () ∧
    (Completed sampleConfig loneMemory 0 0 n ↔
      getRealPointer (loneMemory.hashTable (loneMemory.alternate sampleConfig 0 0) 0) = 0)) loneMemory
    (.running (.enter 0 0 true)) :=
  help_completes_iff sampleConfig 0 loneMemory 0 0 true (by decide) (.inl rfl)

theorem help_leaves_mark : ¬∀ (cfg : Config) (tid : Nat) (m : Memory) (b i : Nat) (initiator : Bool),
    getRealPointer (m.hashTable b i) ≠ 0 →
    (initiator = true ∨ getMarked (m.hashTable b i) = true) →
    Ends (helpRelocate cfg tid) (fun n flow => flow = .returned () ∧ Completed cfg m b i n) m
      (.running (.enter b i initiator)) := by
  intro completes
  have promised := completes sampleConfig 0 takenMemory 0 0 true (by decide) (.inl rfl)
  have run := callSteps_run (helpRelocate sampleConfig 0) 6
    (takenMemory,.running (.enter 0 0 true))
  have completed := promised.returned (by simp) run (by decide +kernel)
  exact absurd completed.2.unmarked (by decide +kernel)

/-- The slot is empty, and each of the `d` entries on its path has gone on to the next
bucket. -/
structure Emptied (cfg : Config) (m : Memory) (b i d : Nat) (n : Memory) : Prop where
  source : getRealPointer (n.hashTable b i) = 0
  moved : ∀ j < d, getRealPointer (n.hashTable (m.hop cfg b i (j + 1)) i) =
    getRealPointer (m.hashTable (m.hop cfg b i j) i)

theorem Shifted.emptied (shifted : Shifted cfg m n b i) : Emptied cfg m b i 1 n := by
  refine ⟨shifted.source.1,fun j early => ?_⟩
  obtain rfl : j = 0 := by omega
  exact shifted.target.1

theorem Shifted.not_emptied (shifted : Shifted cfg m n (m.hop cfg b i (d + 1)) i)
    (leads : Leads cfg m b i (d + 2)) : ¬Emptied cfg m b i (d + 2) n := by
  intro emptied
  have first : b ≠ m.hop cfg b i (d + 1) := leads.distinct (j := 0) (by omega) (by omega)
  have last : b ≠ m.hop cfg b i (d + 2) := leads.distinct (j := 0) (by omega) le_rfl
  have source := emptied.source
  rw [shifted.others b i (by simp [first]) (by rw [← hop_succ]; simp [last])] at source
  exact leads.2 0 (by omega) source

/-- Alone on a table without marks, a relocation that returns true has emptied its slot and
moved its path along exactly when there was at most one entry to move. -/
theorem relocate_empties_iff (cfg : Config) (tid : Nat) (unmarked : m.Unmarked cfg)
    (slot : cfg.Slot b i) :
    Ends (relocate cfg tid) (fun n flow => ∃ result, flow = .returned result ∧ (result = true →
      ∃ d < numMaxKicks, Leads cfg m b i d ∧
        (Emptied cfg m b i d n ↔ getRealPointer (m.hashTable b i) = 0 ∨
          getRealPointer (m.hashTable (m.alternate cfg b i) i) = 0))) m
      (.running (.enter b i)) := by
  refine (relocate_unmarked unmarked slot).mono ?_
  intro n flow outcome
  cases outcome with
  | refused => exact ⟨false,rfl,by simp⟩
  | vacant same empty =>
    refine ⟨true,rfl,fun _ => ⟨0,by decide,Chain.reaches_zero.mpr empty,?_⟩⟩
    refine iff_of_true ⟨?_,fun j early => absurd early (Nat.not_lt_zero j)⟩ (.inl empty)
    rwa [same.table]
  | @shifted d inside leads shifted =>
    refine ⟨true,rfl,fun _ => ⟨d + 1,inside,leads,?_⟩⟩
    cases d with
    | zero => exact iff_of_true shifted.emptied (.inr leads.1)
    | succ d =>
      refine iff_of_false (shifted.not_emptied leads) ?_
      rintro (first | second)
      · exact leads.2 0 (by omega) first
      · exact leads.2 1 (by omega) second

def fourBuckets : Config := ⟨4,by decide,sampleMd5⟩

/-- From bucket 0 the path goes over `a` to bucket 3 and over `f` to bucket 1. -/
def pathMemory : Memory := (loneMemory.allocate 4 (sampleMd5 keyF)).write 3 0 4

theorem lone_unmarked (cfg : Config) : loneMemory.Unmarked cfg := by
  intro b i _
  simp only [loneMemory,Memory.write_table]
  split
  · rfl
  · exact getMarked_null

theorem path_unmarked (cfg : Config) : pathMemory.Unmarked cfg := by
  intro b i slot
  simp only [pathMemory,Memory.write_table]
  split
  · rfl
  · exact lone_unmarked cfg b i slot

theorem lone_slot_empties : Ends (relocate fourBuckets 0) (fun n flow => ∃ result,
    flow = .returned result ∧ (result = true → ∃ d < numMaxKicks, Leads fourBuckets loneMemory 0 0 d ∧
      (Emptied fourBuckets loneMemory 0 0 d n ↔ getRealPointer (loneMemory.hashTable 0 0) = 0 ∨
        getRealPointer (loneMemory.hashTable (loneMemory.alternate fourBuckets 0 0) 0) = 0)))
    loneMemory (.running (.enter 0 0)) :=
  relocate_empties_iff fourBuckets 0 (lone_unmarked _) ⟨by decide,by decide⟩

theorem relocate_keeps_slot : ¬∀ (cfg : Config) (tid : Nat) (m : Memory) (b i : Nat), m.Unmarked cfg →
    cfg.Slot b i → Ends (relocate cfg tid) (fun n flow => ∃ result, flow = .returned result ∧
      (result = true → getRealPointer (n.hashTable b i) = 0)) m (.running (.enter b i)) := by
  intro empties
  have promised := empties fourBuckets 0 pathMemory 0 0 (path_unmarked _) ⟨by decide,by decide⟩
  have run := callSteps_run (relocate fourBuckets 0) 18 (pathMemory,.running (.enter 0 0))
  obtain ⟨result,back,emptied⟩ := promised.returned (by simp) run (by decide +kernel)
  have yes : result = true := (Flow.returned.inj back).symm
  exact absurd (emptied yes) (by decide +kernel)

end CuckooFilter.LockFree
