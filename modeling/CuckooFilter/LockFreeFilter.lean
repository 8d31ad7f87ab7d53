import CuckooFilter.LockFreeBounds

/-! The filter as an object, from a constructor through operations and resets. Two counts and
the sizes of three containers are set by hand in the constructors and in `reset`; all indices
and moduli of the operations go by them. -/
namespace CuckooFilter.LockFree

/-- The members of the class. What the containers hold is in the memory of the system; entries
past their sizes mean nothing. -/
structure Filter where
  tableSize : Int
  threadCount : Int
  verbose : Bool
  hashTableSize : Nat
  hazardPtrsSize : Nat
  retiredPtrsSize : Nat
  system : System

/-- What the language leaves undefined. -/
inductive Fault where
  | outOfRange
  | divisionByZero
  deriving DecidableEq, Repr

/-- A removal is about to push onto its thread's retired list. -/
def Control.retires : Control → Bool
  | .remove frame =>
    match frame.pc with
    | .cas _ _ => true
    | .find _ => false
  | _ => false

namespace Filter

/-- `std::vector::resize` with an `int`; a negative one throws. -/
def resize (size : Int) : Option Nat := if size < 0 then none else some size.toNat

/-- What the constructors share. Neither assigns `thread_count`, which keeps what its memory
happened to hold. `none` is an abort or an exception. -/
def construct (unassigned capacity threads : Int) (verbose : Bool) : Option Filter := do
  if capacity ≤ 0 then failure
  let buckets ← resize capacity
  let rows ← resize threads
  let lists ← resize threads
  some ⟨capacity,unassigned,verbose,buckets,rows,lists,System.initial⟩

def new (unassigned capacity threads : Int) : Option Filter :=
  construct unassigned capacity threads false

def newVerbose (unassigned capacity threads : Int) (verbose : Bool) : Option Filter :=
  construct unassigned capacity threads verbose

def changeVerbose (f : Filter) (verbose : Bool) : Filter := { f with verbose := verbose }

def stores (f : Filter) (entry : Address) : Bool :=
  (List.range f.tableSize.toNat).any fun i => (List.range numItemsPerEntry).any fun j =>
    getRealPointer (f.system.memory.hashTable i j) = entry

/-- `reset` deletes the entries in the table. Retired ones stay on the heap, and no list
names them any more. -/
def reset (f : Filter) (capacity threads : Int) : Option Filter := do
  let heap (entry : Address) := if f.stores entry then none else f.system.memory.heap entry
  let buckets ← resize capacity
  let rows ← resize threads
  let lists ← resize threads
  some { f with
    tableSize := capacity
    threadCount := threads
    hashTableSize := buckets
    hazardPtrsSize := rows
    retiredPtrsSize := lists
    system := ⟨{ Memory.initial with heap := heap },fun _ => .idle⟩ }

def config (md5Fingerprint : Bytes → Bytes) (f : Filter) (positive : 0 < f.tableSize) : Config :=
  ⟨f.tableSize.toNat,by omega,md5Fingerprint⟩

/-- A step of an operation. The call uses its thread's row of hazard cells, a removal the
thread's retired list; no filter has a negative size. -/
def step (md5Fingerprint : Bytes → Bytes) (f : Filter) (tid : Int) (action : Action) :
    Except Fault (Option Filter) :=
  if tid < 0 ∨ f.hazardPtrsSize ≤ tid ∨
      (f.system.control tid.toNat).retires = true ∧ f.retiredPtrsSize ≤ tid then
    .error .outOfRange
  else if positive : 0 < f.tableSize then
    if (f.system.control tid.toNat).bucket?.any (f.hashTableSize ≤ ·) then .error .outOfRange
    else
      .ok ((LockFree.step (f.config md5Fingerprint positive) f.system tid.toNat action).map
        fun system => { f with system := system })
  else .error .divisionByZero

/-- The rows that `free_hazard_pointers` goes through. -/
def inspected (f : Filter) : List Nat := List.range f.threadCount.toNat

/-- How the sizes were last set. -/
inductive Origin where
  | constructed (unassigned threads : Int)
  | reset (capacity : Int)

/-- `Lives origin f`: a constructor and any number of calls and resets come to `f`. A reset
waits until no thread is in the filter. -/
inductive Lives (md5Fingerprint : Bytes → Bytes) : Origin → Filter → Prop where
  | new (made : new unassigned capacity threads = some f) :
      Lives md5Fingerprint (.constructed unassigned threads) f
  | newVerbose (made : newVerbose unassigned capacity threads talks = some f) :
      Lives md5Fingerprint (.constructed unassigned threads) f
  | step (lives : Lives md5Fingerprint origin f)
      (moved : f.step md5Fingerprint tid action = .ok (some g)) : Lives md5Fingerprint origin g
  | changeVerbose (lives : Lives md5Fingerprint origin f) (verbose : Bool) :
      Lives md5Fingerprint origin (f.changeVerbose verbose)
  | reset (lives : Lives md5Fingerprint origin f) (live : f.system.memory.aborted = false)
      (quiet : ∀ tid, f.system.control tid = .idle)
      (done : f.reset capacity threads = some g) : Lives md5Fingerprint (.reset capacity) g

/-- The counts and the sizes. -/
structure Sized (f : Filter) : Prop where
  positive : 1 ≤ f.tableSize
  buckets : f.hashTableSize = f.tableSize
  hazards : f.threadCount = f.hazardPtrsSize
  retired : f.threadCount = f.retiredPtrsSize

/-- And what goes by them: no modulus is zero, a thread with a row stays inside all containers,
and the rows inspected are the rows there are. -/
structure Safe (md5Fingerprint : Bytes → Bytes) (f : Filter) : Prop where
  sized : f.Sized
  modulus : ∀ tid action, f.step md5Fingerprint tid action ≠ .error .divisionByZero
  inside : ∀ (tid : Int) action, 0 ≤ tid → tid < f.hazardPtrsSize →
    f.step md5Fingerprint tid action ≠ .error .outOfRange
  inspects : f.inspected = List.range f.hazardPtrsSize

/-- The constructor happens to find its argument in `thread_count`; `reset` is given a table. -/
def Origin.Counts : Origin → Prop
  | .constructed unassigned threads => unassigned = threads
  | .reset capacity => 1 ≤ capacity

variable {md5Fingerprint : Bytes → Bytes} {f g : Filter} {origin : Origin}

theorem resize_eq_some : resize size = some n ↔ size = n := by
  unfold resize
  split
  · simp only [reduceCtorEq,false_iff]
    omega
  · simp only [Option.some.injEq]
    omega

theorem step_cases (moved : f.step md5Fingerprint tid action = .ok (some g)) :
    ∃ positive system, StepBy (f.config md5Fingerprint positive) tid.toNat f.system system ∧
      g = { f with system := system } := by
  unfold step at moved
  split at moved
  · cases moved
  · split at moved
    · rename_i positive
      split at moved
      · cases moved
      · obtain ⟨system,stepped,rfl⟩ := Option.map_eq_some_iff.mp (Except.ok.inj moved)
        exact ⟨positive,system,⟨action,stepped⟩,rfl⟩
    · cases moved

structure Kept (md5Fingerprint : Bytes → Bytes) (origin : Origin) (f : Filter) : Prop where
  buckets : f.hashTableSize = f.tableSize
  rows : f.retiredPtrsSize = f.hazardPtrsSize
  counts : 1 ≤ f.tableSize ∧ f.threadCount = f.hazardPtrsSize ↔ origin.Counts
  bounded : ∀ positive, Bounded (f.config md5Fingerprint positive) f.system

theorem construct_kept (made : construct unassigned capacity threads talks = some f) :
    Kept md5Fingerprint (.constructed unassigned threads) f := by
  unfold construct at made
  split at made
  · cases made
  · rename_i positive
    simp only [Option.bind_eq_bind,Option.bind_eq_some_iff,resize_eq_some] at made
    obtain ⟨buckets,table,rows,hazards,lists,retired,made⟩ := made
    cases made
    have same : lists = rows := by omega
    refine ⟨table.symm,same,?_,fun _ => bounded_idle fun _ => rfl⟩
    show 1 ≤ capacity ∧ unassigned = rows ↔ unassigned = threads
    omega

theorem reset_kept (done : f.reset capacity threads = some g) :
    Kept md5Fingerprint (.reset capacity) g := by
  unfold reset at done
  simp only [Option.bind_eq_bind,Option.bind_eq_some_iff,resize_eq_some] at done
  obtain ⟨buckets,table,rows,hazards,lists,retired,done⟩ := done
  cases done
  have same : lists = rows := by omega
  refine ⟨table.symm,same,?_,fun _ => bounded_idle fun _ => rfl⟩
  show 1 ≤ capacity ∧ threads = rows ↔ 1 ≤ capacity
  omega

theorem step_kept (kept : Kept md5Fingerprint origin f)
    (moved : f.step md5Fingerprint tid action = .ok (some g)) : Kept md5Fingerprint origin g := by
  obtain ⟨positive,system,stepped,rfl⟩ := step_cases moved
  exact ⟨kept.buckets,kept.rows,kept.counts,fun _ => bounded_step (kept.bounded positive) stepped⟩

theorem lives_kept (lives : Lives md5Fingerprint origin f) : Kept md5Fingerprint origin f := by
  induction lives with
  | new made => exact construct_kept made
  | newVerbose made => exact construct_kept made
  | step _ moved ih => exact step_kept ih moved
  | changeVerbose _ _ ih => exact ⟨ih.buckets,ih.rows,ih.counts,ih.bounded⟩
  | reset _ _ _ done => exact reset_kept done

/-- Sizes that agree leave only a thread without a row outside. -/
theorem sized_safe (kept : Kept md5Fingerprint origin f) (sized : f.Sized) :
    f.Safe md5Fingerprint := by
  have positive : 0 < f.tableSize := by
    have := sized.positive
    omega
  refine ⟨sized,fun tid action => ?_,fun tid action low high => ?_,?_⟩
  · unfold step
    split
    · simp
    · split
      · simp
      · simp
  · have rows := kept.rows
    have within (bucket : Nat) (accessed : (f.system.control tid.toNat).bucket? = some bucket) :
        bucket < f.hashTableSize := by
      have inside := accessed_in_table (kept.bounded positive) accessed
      have size : (f.config md5Fingerprint positive).tableSize = f.tableSize.toNat := rfl
      have buckets := kept.buckets
      omega
    have reads : (f.system.control tid.toNat).bucket?.any (f.hashTableSize ≤ ·) = false := by
      cases accessed : (f.system.control tid.toNat).bucket? with
      | none => rfl
      | some bucket => simpa using within bucket accessed
    unfold step
    rw [if_neg (by omega),dif_pos positive,if_neg (by simp [reads])]
    simp
  · rw [inspected,sized.hazards]
    rfl

/-- The sizes agree, and nothing goes wrong by them, exactly in a filter whose constructor
found its thread count in place or whose last reset gave it a bucket. -/
theorem safe_iff_counts (lives : Lives md5Fingerprint origin f) :
    f.Safe md5Fingerprint ↔ origin.Counts := by
  have kept := lives_kept lives
  rw [← kept.counts]
  constructor
  · intro safe
    exact ⟨safe.sized.positive,safe.sized.hazards⟩
  · rintro ⟨positive,hazards⟩
    have rows := kept.rows
    exact sized_safe kept ⟨positive,kept.buckets,hazards,by omega⟩

/-- Five buckets for three threads; the counter field holds a seven. -/
def builtFilter : Filter := ⟨5,7,false,5,3,3,System.initial⟩

theorem built_filter_lives : Lives sampleMd5 (.constructed 7 3) builtFilter :=
  .new (show new 7 5 3 = some builtFilter from rfl)

def resetFilter (capacity : Int) : Filter := (builtFilter.reset capacity 1).getD builtFilter

theorem reset_filter_lives (wide : 0 ≤ capacity) :
    Lives sampleMd5 (.reset capacity) (resetFilter capacity) := by
  have done : builtFilter.reset capacity 1 = some (resetFilter capacity) := by
    unfold resetFilter reset resize
    rw [if_neg (by omega)]
    rfl
  exact .reset built_filter_lives rfl (fun _ => rfl) done

def callingFilter : Filter :=
  match (resetFilter 2).step sampleMd5 0 (.invoke (.insert keyA)) with
  | .ok (some f) => f
  | _ => resetFilter 2

theorem calling_filter_safe : callingFilter.Safe sampleMd5 := by
  have moved : (resetFilter 2).step sampleMd5 0 (.invoke (.insert keyA)) =
      .ok (some callingFilter) := rfl
  have calling : Lives sampleMd5 (.reset 2) callingFilter :=
    .step (reset_filter_lives (by decide)) moved
  exact (safe_iff_counts calling).mpr (show (1 : Int) ≤ 2 by decide)

/-- The constructor leaves its count out, and `reset` takes a filter's last bucket. -/
theorem sizes_disagree :
    (¬∀ unassigned threads f, Lives sampleMd5 (.constructed unassigned threads) f →
      f.Safe sampleMd5) ∧
    ¬∀ capacity f, Lives sampleMd5 (.reset capacity) f → f.Safe sampleMd5 := by
  constructor
  · intro safe
    have hazards : (7 : Int) = 3 := (safe 7 3 _ built_filter_lives).sized.hazards
    contradiction
  · intro safe
    have positive : (1 : Int) ≤ 0 := (safe 0 _ (reset_filter_lives (by decide))).sized.positive
    contradiction

end Filter

end CuckooFilter.LockFree
