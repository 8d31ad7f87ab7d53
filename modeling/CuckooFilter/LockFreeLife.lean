import CuckooFilter.LockFreeNull
import CuckooFilter.LockFreeTeardown

/-! A filter over its whole life. What a reset leaves on the heap is read by no thread ever
after, so a filter that was reset is a new one beside some entries nobody knows. -/
namespace CuckooFilter.LockFree

namespace Filter

/-- `Lasts earlier f`: a life whose tables are powers of two and whose runs are regular. The
resets have left `earlier` entries on the heap, one for every removal that had answered true
and one for every insertion that had answered false. -/
inductive Lasts (md5Fingerprint : Bytes → Bytes) : Nat → Filter → Prop where
  | new (power : capacity = 2 ^ e) (made : new unassigned capacity threads = some f) :
      Lasts md5Fingerprint 0 f
  | newVerbose (power : capacity = 2 ^ e)
      (made : newVerbose unassigned capacity threads talks = some f) : Lasts md5Fingerprint 0 f
  | step (lasts : Lasts md5Fingerprint earlier f) (positive : 0 < f.tableSize)
      (regular : Regular (f.config md5Fingerprint positive) tid.toNat f.system)
      (moved : f.step md5Fingerprint tid action = .ok (some g)) : Lasts md5Fingerprint earlier g
  | changeVerbose (lasts : Lasts md5Fingerprint earlier f) (verbose : Bool) :
      Lasts md5Fingerprint earlier (f.changeVerbose verbose)
  | reset (lasts : Lasts md5Fingerprint earlier f) (live : f.system.memory.aborted = false)
      (quiet : ∀ tid, f.system.control tid = .idle) (power : capacity = 2 ^ e)
      (done : f.reset capacity threads = some g) :
      Lasts md5Fingerprint (earlier + f.system.memory.outstanding) g

end Filter

variable {cfg : Config} {tid : Nat} {s t : System} {m : Memory} {leaked : Address → Option Bytes}

/-- The memory with other entries on its heap. -/
def Memory.beside (m : Memory) (leaked : Address → Option Bytes) : Memory :=
  { m with heap := fun i => (m.heap i).or (leaked i) }

def System.beside (s : System) (leaked : Address → Option Bytes) : System :=
  ⟨s.memory.beside leaked,s.control⟩

theorem beside_str (allocated : m.heap entry ≠ none) : (m.beside leaked).str entry = m.str entry := by
  obtain ⟨str,there⟩ := Option.ne_none_iff_exists'.mp allocated
  simp [Memory.str,Memory.beside,there]

@[simp] theorem beside_table (m : Memory) : (m.beside leaked).hashTable = m.hashTable := rfl

theorem beside_cas (m : Memory) (b i : Nat) (expected word : TablePointer) :
    (m.beside leaked).compareAndSwap b i expected word =
      ((m.compareAndSwap b i expected word).1.beside leaked,
        (m.compareAndSwap b i expected word).2) := by
  by_cases found : m.hashTable b i = expected
  · simp only [Memory.compareAndSwap,beside_table,found,if_true]
    rfl
  · simp only [Memory.compareAndSwap,beside_table,found,if_false]

theorem help_beside (cfg : Config) (tid : Nat) (leaked : Address → Option Bytes) {f : HelpFrame}
    (reads : ∀ entry, f.reads? = some entry → m.heap entry ≠ none) :
    helpRelocate cfg tid (m.beside leaked) f =
      ((helpRelocate cfg tid m f).1.beside leaked,(helpRelocate cfg tid m f).2) := by
  cases pc : f.pc with
  | readSource | rereadSource | readDest | recheckSource =>
    simp only [helpRelocate,pc]
    rfl
  | deref ptr1 =>
    have allocated := reads (getRealPointer ptr1) (by simp [HelpFrame.reads?,pc])
    simp only [helpRelocate,pc,beside_str allocated]
  | markCas => simp only [helpRelocate,pc,beside_cas]
  | copyCas ptr1 ptr2 newHash =>
    simp only [helpRelocate,pc,beside_cas]
    cases createPointer (raisedCounter ptr1 ptr2) (getRealPointer ptr1) false with
    | none => rfl
    | some word =>
      dsimp only
      rcases m.compareAndSwap newHash f.slotIdx ptr2 word with ⟨next,_ | _⟩ <;> rfl
  | clearCas ptr1 newHash =>
    simp only [helpRelocate,pc,beside_cas]
    cases createPointer (getCounter ptr1 + 1) 0 false <;> rfl
  | sameCas ptr1 newHash =>
    simp only [helpRelocate,pc,beside_cas]
    cases createPointer (getCounter ptr1 + 1) 0 false with
    | none => rfl
    | some word =>
      dsimp only
      rcases m.compareAndSwap newHash f.slotIdx ptr1 word with ⟨next,_ | _⟩ <;> rfl
  | failCas ptr1 newHash =>
    simp only [helpRelocate,pc,beside_cas]
    cases createPointer (getCounter ptr1 + 1) (getRealPointer ptr1) true with
    | none => rfl
    | some word =>
      dsimp only
      rcases m.compareAndSwap newHash f.slotIdx ptr1 word with ⟨next,_ | _⟩ <;> rfl

theorem find_beside (cfg : Config) (tid : Nat) (leaked : Address → Option Bytes) {f : FindFrame}
    (reads : ∀ entry, f.reads? = some entry → m.heap entry ≠ none) :
    find cfg tid (m.beside leaked) f =
      ((find cfg tid m f).1.beside leaked,(find cfg tid m f).2) := by
  cases pc : f.pc with
  | readFirst =>
    by_cases empty : getRealPointer (m.hashTable f.hash1 f.slot) = 0
    · simp only [find,pc,beside_table,empty,if_true]
      rfl
    · cases marked : getMarked (m.hashTable f.hash1 f.slot) with
      | false =>
        simp only [find,pc,beside_table,empty,marked,if_false,Bool.false_eq_true]
        rfl
      | true =>
        simp only [find,pc,beside_table,empty,marked,if_false,if_true]
        rfl
  | readSecond ts1 =>
    by_cases empty : getRealPointer (m.hashTable f.hash2 f.slot) = 0
    · simp only [find,pc,beside_table,empty,if_true]
      rfl
    · cases marked : getMarked (m.hashTable f.hash2 f.slot) with
      | false =>
        simp only [find,pc,beside_table,empty,marked,if_false,Bool.false_eq_true]
        rfl
      | true =>
        simp only [find,pc,beside_table,empty,marked,if_false,if_true]
        rfl
  | compareFirst ptr | compareSecond ts1 ptr =>
    have allocated := reads (getRealPointer ptr) (by simp [FindFrame.reads?,pc])
    simp only [find,pc,beside_str allocated]
    split <;> rfl
  | recheckFirst =>
    simp only [find,pc]
    rfl
  | recheckSecond ts1 ts2 ts1x =>
    cases moved : checkCounter ts1 ts2 ts1x (getCounter (m.hashTable f.hash2 f.slot)) with
    | false => simp only [find,pc,beside_table,moved,if_false,Bool.false_eq_true]
    | true => simp only [find,pc,beside_table,moved,if_true]
  | help frame =>
    have inner := help_beside cfg tid leaked (f := frame) (m := m)
      fun entry now => reads entry (by simpa [FindFrame.reads?,pc] using now)
    simp only [find,pc,inner]
    rcases helpRelocate cfg tid m frame with ⟨next,_ | _⟩ <;> rfl

theorem relocate_beside (cfg : Config) (tid : Nat) (leaked : Address → Option Bytes)
    {f : RelocateFrame} (reads : ∀ entry, f.reads? = some entry → m.heap entry ≠ none) :
    relocate cfg tid (m.beside leaked) f =
      ((relocate cfg tid m f).1.beside leaked,(relocate cfg tid m f).2) := by
  cases pc : f.pc with
  | discoverReread =>
    cases marked : getMarked (m.hashTable f.tableIdx f.slotIdx) with
    | false => simp only [relocate,pc,beside_table,marked,if_false,Bool.false_eq_true]
    | true =>
      simp only [relocate,pc,beside_table,marked,if_true]
      rfl
  | discover =>
    cases marked : getMarked (m.hashTable f.tableIdx f.slotIdx) with
    | false =>
      simp only [relocate,pc,beside_table,marked,if_false,Bool.false_eq_true]
      rfl
    | true =>
      simp only [relocate,pc,beside_table,marked,if_true]
      rfl
  | traverse depth =>
    cases marked : getMarked (m.hashTable (f.sourceIdx depth) f.slotIdx) with
    | false => simp only [relocate,pc,beside_table,marked,if_false,Bool.false_eq_true]
    | true =>
      simp only [relocate,pc,beside_table,marked,if_true]
      rfl
  | traverseReread =>
    simp only [relocate,pc]
    rfl
  | traverseDest depth i destIdx =>
    by_cases empty : getRealPointer (m.hashTable destIdx f.slotIdx) = 0
    · simp only [relocate,pc,beside_table,empty,ne_eq,not_true_eq_false,if_false]
      rfl
    · simp only [relocate,pc,beside_table,empty,ne_eq,not_false_eq_true,if_true]
      rfl
  | discoverDeref depth ptr | traverseDeref depth i ptr =>
    have allocated := reads (getRealPointer ptr) (by simp [RelocateFrame.reads?,pc])
    simp only [relocate,pc,beside_str allocated]
  | discoverHelp depth frame | traverseHelp depth i frame | traverseMove depth i frame =>
    have inner := help_beside cfg tid leaked (f := frame) (m := m)
      fun entry now => reads entry (by simpa [RelocateFrame.reads?,pc] using now)
    simp only [relocate,pc,inner]
    rcases helpRelocate cfg tid m frame with ⟨next,_ | _⟩ <;> rfl

theorem insert_beside (cfg : Config) (tid : Nat) (leaked : Address → Option Bytes)
    {f : InsertFrame} (reads : ∀ entry, (Control.insert f).reads? = some entry → m.heap entry ≠ none) :
    insert cfg tid (m.beside leaked) f =
      ((insert cfg tid m f).1.beside leaked,(insert cfg tid m f).2) := by
  cases pc : f.pc with
  | allocate | shuffle => simp only [insert,pc]
  | probe i second foundEmpty =>
    by_cases empty : getRealPointer (m.hashTable (f.bucket second) i) = 0
    · simp only [insert,pc,beside_table,empty,if_true]
    · simp only [insert,pc,beside_table,empty,if_false]
  | store i second ptr1 =>
    simp only [insert,pc,beside_cas]
    cases createPointer (getCounter ptr1) f.newEntry false with
    | none => rfl
    | some word =>
      dsimp only
      rcases m.compareAndSwap (f.bucket second) i ptr1 word with ⟨next,_ | _⟩ <;> rfl
  | kick rest frame =>
    have inner := relocate_beside cfg tid leaked (f := frame) (m := m)
      fun entry now => reads entry (by simpa [Control.reads?,InsertFrame.relocate?,pc] using now)
    simp only [insert,pc,inner]
    rcases relocate cfg tid m frame with ⟨next,_ | _ | _⟩ <;> rfl

theorem remove_beside (cfg : Config) (tid : Nat) (leaked : Address → Option Bytes)
    {f : RemoveFrame} (reads : ∀ entry, (Control.remove f).reads? = some entry → m.heap entry ≠ none) :
    remove cfg tid (m.beside leaked) f =
      ((remove cfg tid m f).1.beside leaked,(remove cfg tid m f).2) := by
  cases pc : f.pc with
  | find frame =>
    have inner := find_beside cfg tid leaked (f := frame) (m := m)
      fun entry now => reads entry (by simpa [Control.reads?,RemoveFrame.find?,pc] using now)
    simp only [remove,pc,inner]
    rcases find cfg tid m frame with ⟨next,_ | result⟩
    · rfl
    · by_cases missing : result.1 = numItemsPerEntry * 2
      · simp only [missing,if_true]
      · simp only [missing,if_false]
  | cas location ptr1 =>
    simp only [remove,pc,beside_cas]
    cases createPointer (getCounter ptr1) 0 false with
    | none => rfl
    | some word =>
      dsimp only
      rcases m.compareAndSwap (f.hashVal location) (location % numItemsPerEntry) ptr1 word with
        ⟨next,_ | _⟩ <;> rfl

/-- A step in which no unknown entry is read is the same step beside the others. -/
theorem advance_beside (cfg : Config) (tid : Nat) (leaked : Address → Option Bytes)
    {control : Control} (reads : ∀ entry, control.reads? = some entry → m.heap entry ≠ none) :
    advance cfg tid (m.beside leaked) control =
      ((advance cfg tid m control).1.beside leaked,(advance cfg tid m control).2) := by
  cases control with
  | idle => rfl
  | insert f =>
    simp only [advance,insert_beside cfg tid leaked reads]
    rcases insert cfg tid m f with ⟨next,_ | _⟩ <;> rfl
  | find key f =>
    simp only [advance,find_beside cfg tid leaked (f := f) reads]
    rcases find cfg tid m f with ⟨next,_ | _⟩ <;> rfl
  | remove f =>
    simp only [advance,remove_beside cfg tid leaked reads]
    rcases remove cfg tid m f with ⟨next,_ | _⟩ <;> rfl

theorem help_reads_held {f : HelpFrame} (reads : f.reads? = some entry) :
    ∃ cell ∈ f.held, getRealPointer cell.word = entry := by
  cases pc : f.pc with
  | deref ptr1 =>
    simp only [HelpFrame.reads?,pc,Option.some.injEq] at reads
    exact ⟨⟨f.tableIdx,f.slotIdx,ptr1⟩,by simp [HelpFrame.held,pc],reads⟩
  | _ => simp [HelpFrame.reads?,pc] at reads

theorem find_reads_held {f : FindFrame} (reads : f.reads? = some entry) :
    ∃ cell ∈ f.held, getRealPointer cell.word = entry := by
  cases pc : f.pc with
  | compareFirst ptr1 =>
    simp only [FindFrame.reads?,pc,Option.some.injEq] at reads
    exact ⟨⟨f.hash1,f.slot,ptr1⟩,by simp [FindFrame.held,pc],reads⟩
  | compareSecond ts1 ptr2 =>
    simp only [FindFrame.reads?,pc,Option.some.injEq] at reads
    exact ⟨⟨f.hash2,f.slot,ptr2⟩,by simp [FindFrame.held,pc],reads⟩
  | help frame =>
    simp only [FindFrame.reads?,pc] at reads
    simp only [FindFrame.held,pc]
    exact help_reads_held reads
  | _ => simp [FindFrame.reads?,pc] at reads

theorem relocate_reads_held {f : RelocateFrame} (reads : f.reads? = some entry) :
    ∃ cell ∈ f.held, getRealPointer cell.word = entry := by
  cases pc : f.pc with
  | discoverDeref depth ptr1 =>
    simp only [RelocateFrame.reads?,pc,Option.some.injEq] at reads
    exact ⟨⟨f.tableIdx,f.slotIdx,ptr1⟩,by simp [RelocateFrame.held,pc],reads⟩
  | traverseDeref depth i sourcePtr =>
    simp only [RelocateFrame.reads?,pc,Option.some.injEq] at reads
    exact ⟨⟨f.sourceIdx depth,f.slotIdx,sourcePtr⟩,by simp [RelocateFrame.held,pc],reads⟩
  | discoverHelp depth frame | traverseHelp depth i frame | traverseMove depth i frame =>
    simp only [RelocateFrame.reads?,pc] at reads
    simp only [RelocateFrame.held,pc]
    exact help_reads_held reads
  | _ => simp [RelocateFrame.reads?,pc] at reads

theorem reads_held {control : Control} (reads : control.reads? = some entry) :
    ∃ cell ∈ control.held, getRealPointer cell.word = entry := by
  cases control with
  | idle => cases reads
  | insert f =>
    obtain ⟨call,inside,reads⟩ := Option.bind_eq_some_iff.mp reads
    cases pc : f.pc with
    | kick rest frame =>
      simp only [InsertFrame.relocate?,pc,Option.some.injEq] at inside
      subst inside
      simp only [Control.held,InsertFrame.held,pc]
      exact relocate_reads_held reads
    | _ => simp [InsertFrame.relocate?,pc] at inside
  | find key f => exact find_reads_held reads
  | remove f =>
    obtain ⟨search,inside,reads⟩ := Option.bind_eq_some_iff.mp reads
    cases pc : f.pc with
    | find frame =>
      simp only [RemoveFrame.find?,pc,Option.some.injEq] at inside
      subst inside
      simp only [Control.held,RemoveFrame.held,pc]
      exact find_reads_held reads
    | cas => simp [RemoveFrame.find?,pc] at inside

theorem reads_allocated (reachable : Reachable cfg s)
    (reads : (s.control tid).reads? = some entry) : s.memory.heap entry ≠ none := by
  obtain ⟨cell,member,rfl⟩ := reads_held reads
  exact (reachable_sound reachable).cells tid cell member (reads_nonnull reachable reads)

/-- The entries of the other heap are nobody's here. -/
def Memory.Apart (m : Memory) (leaked : Address → Option Bytes) : Prop :=
  ∀ entry, leaked entry ≠ none → m.heap entry = none

theorem beside_fresh (fresh : (m.beside leaked).Fresh address) :
    m.Fresh address ∧ leaked address = none := by
  obtain ⟨present,fits,unused⟩ := fresh
  obtain ⟨own,other⟩ := Option.or_eq_none_iff.mp unused
  exact ⟨⟨present,fits,own⟩,other⟩

theorem beside_allocate (m : Memory) (address : Address) (str : Bytes) :
    (m.beside leaked).allocate address str = (m.allocate address str).beside leaked := by
  simp only [Memory.allocate,Memory.beside,Memory.mk.injEq,and_true,true_and]
  funext i
  by_cases here : i = address
  · simp [here]
  · simp [here]

theorem allocate_fresh {control : Control}
    (stepped : threadStep cfg tid m control (.allocate address) = some result) :
    m.Fresh address := by
  cases control with
  | insert f =>
    simp only [threadStep] at stepped
    split at stepped
    · rename_i begins
      exact begins.2
    · contradiction
  | _ => cases stepped

theorem threadStep_beside {control after : Control} {next : Memory}
    (reads : ∀ entry, control.reads? = some entry → m.heap entry ≠ none)
    (stepped : threadStep cfg tid (m.beside leaked) control action = some (next,after)) :
    ∃ own, threadStep cfg tid m control action = some (own,after) ∧ next = own.beside leaked := by
  cases action with
  | invoke call =>
    simp only [threadStep] at stepped ⊢
    by_cases idle : control = .idle
    · simp only [idle,if_true,Option.some.injEq] at stepped ⊢
      cases call <;> (cases stepped; exact ⟨_,rfl,rfl⟩)
    · simp [idle] at stepped
  | allocate address =>
    cases control with
    | insert f =>
      simp only [threadStep] at stepped ⊢
      split at stepped
      · rename_i begins
        cases stepped
        exact ⟨_,if_pos ⟨begins.1,(beside_fresh begins.2).1⟩,beside_allocate m address f.fingerprint⟩
      · contradiction
    | _ => cases stepped
  | shuffle order =>
    cases control with
    | insert f =>
      simp only [threadStep] at stepped ⊢
      split at stepped
      · rename_i begins
        rw [if_pos begins]
        cases kicks : f.nextKick order with
        | running frame =>
          simp only [kicks] at stepped ⊢
          cases stepped
          exact ⟨m,rfl,rfl⟩
        | returned =>
          simp only [kicks] at stepped
          contradiction
      · contradiction
    | _ => cases stepped
  | run =>
    simp only [threadStep,advance_beside cfg tid leaked reads] at stepped ⊢
    split at stepped
    · contradiction
    · rename_i goes
      cases stepped
      exact ⟨_,if_neg goes,rfl⟩

theorem step_beside (reachable : Reachable cfg s) (apart : s.memory.Apart leaked)
    (moved : StepBy cfg tid (s.beside leaked) t) :
    ∃ own, StepBy cfg tid s own ∧ t = own.beside leaked ∧ own.memory.Apart leaked := by
  obtain ⟨action,moved⟩ := moved
  unfold step at moved
  split at moved
  · contradiction
  rename_i live
  have live : ¬s.memory.aborted = true := live
  split at moved
  · contradiction
  rename_i next after stepped
  cases moved
  obtain ⟨own,raw,rfl⟩ := threadStep_beside (fun entry => reads_allocated reachable) stepped
  have moved : step cfg s tid action =
      some ⟨own,fun other => if other = tid then after else s.control other⟩ := by
    unfold step
    rw [if_neg live,raw]
  refine ⟨_,⟨action,moved⟩,rfl,fun entry there => ?_⟩
  by_contra allocated
  rcases step_allocates moved allocated with before | rfl
  · exact before (apart entry there)
  · exact there (beside_fresh (allocate_fresh stepped)).2

theorem null_unallocated (reachable : Reachable cfg s) : s.memory.heap 0 = none := by
  refine Transition.run_invariant (fun s => s.memory.heap 0 = none) ?_ rfl reachable
  rintro s t null ⟨tid,-,action,moved⟩
  by_contra allocated
  rcases step_allocates moved allocated with before | rfl
  · exact before null
  · unfold step at moved
    split at moved
    · contradiction
    · split at moved
      · contradiction
      · rename_i stepped
        exact (allocate_fresh stepped).1 rfl

theorem Scrapped.beside (scrapped : Scrapped tableSize 0 m) (apart : m.Apart leaked)
    (others : List Address) (distinct : others.Nodup)
    (members : ∀ entry, entry ∈ others ↔ leaked entry ≠ none) :
    Scrapped tableSize others.length (m.beside leaked) := by
  have same : (m.beside leaked).occupants tableSize = m.occupants tableSize := rfl
  have live (entry : Address) (member : entry ∈ m.occupants tableSize) : m.heap entry ≠ none :=
    scrapped.live entry (by rwa [destroy_deleted])
  obtain ⟨left,once,allocated,count⟩ := scrapped.left
  refine ⟨?_,fun entry member => ?_,fun entry => ?_,scrapped.filed,fun tid entry member => ?_,
    left ++ others,once.append distinct fun entry member other => ?_,fun entry => ?_,?_⟩
  · rw [destroy_deleted,same,← destroy_deleted]
    exact scrapped.once
  · rw [destroy_deleted,same] at member
    simp [Memory.beside,live entry member]
  · rw [destroy_deleted,same,← destroy_deleted]
    exact scrapped.stored entry
  · rw [destroy_deleted,same,← destroy_deleted]
    exact scrapped.spared tid entry member
  · have there := (allocated entry).mp member
    rw [destroy_heap,apart entry ((members entry).mp other),ite_self] at there
    contradiction
  · rw [List.mem_append,allocated,members,destroy_heap,destroy_heap,same]
    by_cases member : entry ∈ m.occupants tableSize
    · have absent : leaked entry = none := by
        by_contra other
        exact live entry member (apart entry other)
      simp [member,absent]
    · simp only [member,if_false,Memory.beside,ne_eq,Option.or_eq_none_iff]
      exact not_and_or.symm
  · rw [List.length_append,count,Nat.zero_add,Nat.add_comm]
    rfl

namespace Filter

variable {md5Fingerprint : Bytes → Bytes} {f g : Filter} {origin : Origin} {earlier : Nat}

theorem construct_system (made : construct unassigned capacity threads talks = some f) :
    f.tableSize = capacity ∧ f.system = System.initial := by
  unfold construct at made
  split at made
  · cases made
  · simp only [Option.bind_eq_bind,Option.bind_eq_some_iff] at made
    obtain ⟨buckets,-,rows,-,lists,-,made⟩ := made
    cases made
    exact ⟨rfl,rfl⟩

theorem reset_system (done : f.reset capacity threads = some g) :
    g.tableSize = capacity ∧ g.system = System.initial.beside g.system.memory.heap := by
  unfold reset at done
  simp only [Option.bind_eq_bind,Option.bind_eq_some_iff] at done
  obtain ⟨buckets,-,rows,-,lists,-,done⟩ := done
  cases done
  exact ⟨rfl,rfl⟩

theorem Lasts.lives (lasts : Lasts md5Fingerprint earlier f) :
    ∃ origin, Lives md5Fingerprint origin f := by
  induction lasts with
  | new _ made => exact ⟨_,.new made⟩
  | newVerbose _ made => exact ⟨_,.newVerbose made⟩
  | step _ _ _ moved ih =>
    obtain ⟨origin,lives⟩ := ih
    exact ⟨origin,lives.step moved⟩
  | changeVerbose _ verbose ih =>
    obtain ⟨origin,lives⟩ := ih
    exact ⟨origin,lives.changeVerbose verbose⟩
  | reset _ live quiet _ done ih =>
    obtain ⟨origin,lives⟩ := ih
    exact ⟨_,lives.reset live quiet done⟩

/-- The run since the last reset, and what that reset left. -/
structure Since (md5Fingerprint : Bytes → Bytes) (earlier : Nat) (f : Filter)
    (positive : 0 < f.tableSize) (s : System) (leaked : Address → Option Bytes) : Prop where
  run : Run (f.config md5Fingerprint positive) (Regular (f.config md5Fingerprint positive))
    System.initial s
  same : f.system = s.beside leaked
  apart : s.memory.Apart leaked
  null : leaked 0 = none
  others : ∃ others : List Address, others.Nodup ∧ others.length = earlier ∧
    ∀ entry, entry ∈ others ↔ leaked entry ≠ none

theorem Since.scrapped (since : Since md5Fingerprint earlier f positive s leaked)
    (power : f.tableSize = 2 ^ e) (quiet : ∀ tid, f.system.control tid = .idle) :
    Scrapped f.tableSize.toNat earlier f.system.memory := by
  have buckets : (f.config md5Fingerprint positive).tableSize = 2 ^ e := by
    show f.tableSize.toNat = 2 ^ e
    rw [power]
    exact Int.toNat_pow_of_nonneg (by decide) e
  have idle (tid : Nat) : s.control tid = .idle := by
    have now := quiet tid
    rwa [since.same] at now
  obtain ⟨others,distinct,rfl,members⟩ := since.others
  rw [since.same]
  exact (rest_scrapped buckets since.run idle).beside since.apart others distinct members

theorem Since.unallocated (since : Since md5Fingerprint earlier f positive s leaked) :
    f.system.memory.heap 0 = none := by
  rw [since.same]
  exact Option.or_eq_none_iff.mpr ⟨null_unallocated since.run.reachable,since.null⟩

/-- A reset's own deletes come before it, and leave what the new filter begins beside. -/
theorem Since.reset (since : Since md5Fingerprint earlier f positive s leaked)
    (power : f.tableSize = 2 ^ e) (quiet : ∀ tid, f.system.control tid = .idle)
    (done : f.reset capacity threads = some g) (positive' : 0 < g.tableSize) :
    Since md5Fingerprint (earlier + f.system.memory.outstanding) g positive' System.initial
      g.system.memory.heap := by
  have scrapped := since.scrapped power quiet
  have heap := reset_destroys since.unallocated done
  obtain ⟨left,once,allocated,count⟩ := scrapped.left
  refine ⟨.refl,(reset_system done).2,fun _ _ => rfl,?_,left,once,count,fun entry => ?_⟩
  · rw [heap,destroy_heap,since.unallocated,ite_self]
  · rw [heap]
    exact allocated entry

theorem lasts_since (lasts : Lasts md5Fingerprint earlier f) : ∃ e positive s leaked,
    f.tableSize = 2 ^ e ∧ Since md5Fingerprint earlier f positive s leaked := by
  have wide {e : Nat} {capacity : Int} (power : capacity = 2 ^ e) : 0 < capacity :=
    power ▸ Int.pow_pos (by decide)
  have fresh {f : Filter} {e : Nat} {unassigned capacity threads : Int} {talks : Bool}
      (power : capacity = 2 ^ e) (made : construct unassigned capacity threads talks = some f) :
      ∃ e positive s leaked, f.tableSize = 2 ^ e ∧
        Since md5Fingerprint 0 f positive s leaked := by
    obtain ⟨rfl,same⟩ := construct_system made
    exact ⟨e,wide power,System.initial,fun _ => none,power,.refl,same,fun _ _ => rfl,rfl,[],
      List.nodup_nil,rfl,fun entry => by simp⟩
  induction lasts with
  | new power made | newVerbose power made => exact fresh power made
  | step lasts positive regular performed ih =>
    obtain ⟨positive',system,moved,rfl⟩ := step_cases performed
    obtain ⟨e,_,s,leaked,power,since⟩ := ih
    rw [since.same] at moved regular
    obtain ⟨own,stepped,rfl,apart⟩ := step_beside since.run.reachable since.apart moved
    exact ⟨e,positive,own,leaked,power,since.run.tail ⟨_,regular,stepped⟩,rfl,apart,since.null,
      since.others⟩
  | changeVerbose lasts verbose ih =>
    obtain ⟨e,positive,s,leaked,power,since⟩ := ih
    exact ⟨e,positive,s,leaked,power,since.run,since.same,since.apart,since.null,since.others⟩
  | reset lasts live quiet power done ih =>
    obtain ⟨_,_,s,leaked,before,since⟩ := ih
    obtain ⟨rfl,-⟩ := reset_system done
    exact ⟨_,wide power,_,_,power,since.reset before quiet done (wide power)⟩

/-- However often a filter was reset, when all its calls have answered its destructor deletes
the entries in the table, each once and none that a thread has retired. The heap then has one
entry for every removal that ever answered true and for every insertion that ever answered
false. A reset deletes just what the destructor would. -/
theorem lasts_scrapped (lasts : Lasts md5Fingerprint earlier f)
    (quiet : ∀ tid, f.system.control tid = .idle) :
    Scrapped f.tableSize.toNat earlier f.system.memory ∧
      ∀ capacity threads g, f.reset capacity threads = some g →
        g.system.memory.heap = (f.system.memory.destroy f.tableSize.toNat).1.heap := by
  obtain ⟨e,positive,s,leaked,power,since⟩ := lasts_since lasts
  exact ⟨since.scrapped power quiet,fun _ _ _ done => reset_destroys since.unallocated done⟩

theorem step_ok (safe : f.Safe md5Fingerprint) (positive : 0 < f.tableSize)
    (row : tid < f.hazardPtrsSize)
    (moved : LockFree.step (f.config md5Fingerprint positive) f.system tid action = some t) :
    f.step md5Fingerprint tid action = .ok (some { f with system := t }) := by
  have inside := safe.inside tid action (by omega) (by omega)
  revert inside
  unfold step
  split
  · exact fun inside => absurd rfl inside
  · split
    · exact fun inside => absurd rfl inside
    · rw [Int.toNat_natCast,moved]
      exact fun _ => rfl

theorem lasts_run (lasts : Lasts md5Fingerprint earlier f) (sized : f.Sized)
    (positive : 0 < f.tableSize)
    (run : Run (f.config md5Fingerprint positive)
      (fun tid s => Regular (f.config md5Fingerprint positive) tid s ∧ tid < f.hazardPtrsSize)
      f.system t) : Lasts md5Fingerprint earlier { f with system := t } := by
  induction run with
  | refl => exact lasts
  | @tail s t past last ih =>
    obtain ⟨tid,⟨regular,row⟩,action,moved⟩ := last
    obtain ⟨origin,lives⟩ := ih.lives
    have safe : ({ f with system := s } : Filter).Safe md5Fingerprint :=
      sized_safe (lives_kept lives) ⟨sized.positive,sized.buckets,sized.hazards,sized.retired⟩
    have performed := step_ok safe positive row moved
    refine .step ih positive ?_ performed
    rw [Int.toNat_natCast]
    exact regular

def pairFilter : Filter := ⟨2,2,false,2,2,2,System.initial⟩

/-- Thread 1 has removed `a` and all calls have answered. -/
def restedFilter : Filter := { pairFilter with system := endState sampleConfig restedSchedule }

theorem rested_lasts : Lasts sampleMd5 0 restedFilter := by
  have run : Run sampleConfig (fun tid s =>
      (Guarded sampleConfig tid s ∧ AtGivingUp tid s = false) ∧ tid < 2) System.initial
      (endState sampleConfig restedSchedule) := endState_run _ restedSchedule (by decide +kernel)
  have made : new 2 2 2 = some pairFilter := rfl
  exact lasts_run (f := pairFilter) (.new (e := 1) rfl made) ⟨by decide,rfl,rfl,rfl⟩ (by decide)
    (run.weaken fun tid s allowed => ⟨regular_at allowed.1,allowed.2⟩)

/-- Reset to four buckets for one thread. -/
def renewedFilter : Filter := (restedFilter.reset 4 1).getD restedFilter

theorem renewed_reset : restedFilter.reset 4 1 = some renewedFilter := rfl

theorem renewed_lasts : Lasts sampleMd5 restedFilter.system.memory.outstanding renewedFilter := by
  have lasts := rested_lasts.reset (by decide +kernel) rested_idle (e := 2) rfl renewed_reset
  rwa [Nat.zero_add] at lasts

theorem renewed_wide : 0 < renewedFilter.tableSize := by
  rw [(reset_system renewed_reset).1]
  decide

/-- Bucket 1 is filled with entries at the addresses the reset has freed. Then `a` moves to
bucket 2 for another `c`, is found there, and a `c` is removed. -/
def reusingSchedule : List (Nat × Action) :=
  inserts 0 keyF 6 2 ++ inserts 0 keyA 8 3 ++ inserts 0 keyC 10 4 ++ inserts 0 keyC 12 6 ++
    inserts 0 keyC 14 8 ++ [(0,.invoke (.remove keyF))] ++ runs 0 3 ++ inserts 0 keyC 16 8 ++
    [(0,.shuffle [0,1,2,3])] ++ runs 0 16 ++ [(0,.invoke (.find keyA))] ++ runs 0 2 ++
    [(0,.invoke (.remove keyC))] ++ runs 0 3

/-- The filter after the first `n` steps of that. -/
def reusedFilter (n : Nat) : Filter :=
  { renewedFilter with
    system :=
      (execute fourBuckets (reusingSchedule.take n) renewedFilter.system).getD renewedFilter.system }

/-- Thread 0 keeps the guards and never comes to lines 413 to 425. -/
abbrev Reusing (tid : Nat) (s : System) : Prop :=
  (Guarded fourBuckets tid s ∧ AtGivingUp tid s = false) ∧ tid < 1

theorem reused_run (n : Nat) (possible : (executeWhile fourBuckets Reusing
      (reusingSchedule.take n) renewedFilter.system).isSome = true) :
    Run fourBuckets Reusing renewedFilter.system (reusedFilter n).system := by
  obtain ⟨t,executed⟩ := Option.isSome_iff_exists.mp possible
  obtain ⟨same,run⟩ := executeWhile_run _ _ _ t executed
  have last : (reusedFilter n).system = t := by rw [reusedFilter,same,Option.getD_some]
  rwa [last]

theorem reused_lasts (n : Nat) (possible : (executeWhile fourBuckets Reusing
      (reusingSchedule.take n) renewedFilter.system).isSome = true) :
    Lasts sampleMd5 restedFilter.system.memory.outstanding (reusedFilter n) := by
  exact lasts_run (f := renewedFilter) renewed_lasts ⟨by decide,rfl,rfl,rfl⟩ renewed_wide
    ((reused_run n possible).weaken fun tid s allowed => ⟨regular_at allowed.1,allowed.2⟩)

theorem reused_idle (run : Run fourBuckets Reusing renewedFilter.system s)
    (answered : s.control 0 = .idle) (tid : Nat) : s.control tid = .idle := by
  by_cases caller : tid = 0
  · rw [caller,answered]
  · clear answered
    induction run with
    | refl =>
      rw [(reset_system renewed_reset).2]
      rfl
    | tail past last before =>
      obtain ⟨mover,allowed,moved⟩ := last
      rw [stepBy_other moved (by omega),before]

theorem reused_scrapped :
    ((reusedFilter 75).system.memory.history =
      [(.remove keyC,true),(.find keyA,true),(.insert keyC,true),(.remove keyF,true),
        (.insert keyC,true),(.insert keyC,true),(.insert keyC,true),(.insert keyA,true),
        (.insert keyF,true)]) ∧
    Scrapped 4 restedFilter.system.memory.outstanding (reusedFilter 75).system.memory ∧
    ∀ capacity threads g, (reusedFilter 75).reset capacity threads = some g →
      g.system.memory.heap = ((reusedFilter 75).system.memory.destroy 4).1.heap := by
  have size : (reusedFilter 75).tableSize.toNat = 4 :=
    congrArg Int.toNat (reset_system renewed_reset).1
  refine ⟨by decide +kernel,?_⟩
  rw [← size]
  exact lasts_scrapped (reused_lasts 75 (by decide +kernel))
    (reused_idle (reused_run 75 (by decide +kernel)) (by decide +kernel))

end Filter

end CuckooFilter.LockFree
