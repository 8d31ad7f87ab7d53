import CuckooFilter.Compaction
import CuckooFilter.LockFreeFilter

/-! `free_hazard_pointers`: the entries in hazard cells stay on the thread's retired list,
which is compacted in place, and the others are deleted. -/
namespace CuckooFilter.LockFree

/-- `MAX_HAZARD_POINTER_COUNT` -/
def maxHazardPointerCount : Nat := 2

def Memory.delete (m : Memory) (entry : Address) : Memory :=
  { m with heap := fun i => if i = entry then none else m.heap i }

theorem delete_all (m : Memory) (entries : List Address) : entries.foldl Memory.delete m =
    { m with heap := fun i => if i ∈ entries then none else m.heap i } := by
  induction entries generalizing m with
  | nil => simp
  | cons entry rest ih =>
    rw [List.foldl_cons,ih]
    simp only [Memory.delete,Memory.mk.injEq,and_true,true_and]
    funext i
    by_cases here : i = entry
    · simp [here]
    · simp [here]

namespace Filter

def retired (f : Filter) (tid : Nat) : List Address := f.system.memory.retiredPtrs tid

/-- `hazard_record`: what is in the cells inspected, null cells skipped. -/
def hazardRecord (f : Filter) : List Address :=
  (f.inspected.flatMap fun i => (List.range maxHazardPointerCount).map fun j =>
    f.system.memory.hazardPtrs i j).filter (· ≠ 0)

/-- `int old_count`, of a 64-bit size. -/
def oldCount (f : Filter) (tid : Nat) : Int := (BitVec.ofNat 32 (f.retired tid).length).toInt

/-- `resize(new_count)` -/
def resized (list : List Address) (newCount : Nat) : List Address :=
  list.take newCount ++ List.replicate (newCount - list.length) 0

def settle (f : Filter) (tid : Nat) (list deleted : List Address) : Filter :=
  { f with system := { f.system with memory := { deleted.foldl Memory.delete f.system.memory with
      retiredPtrs := fun i => if i = tid then list else f.retired i } } }

/-- The result carries the entries in the order of their `delete`. -/
def freeHazardPointers (f : Filter) (tid : Nat) : Filter × List Address :=
  let final := Compaction.loop (f.hazardRecord.contains ·) (f.retired tid) (f.oldCount tid).toNat
  (f.settle tid (resized final.items final.write) final.dropped,final.dropped)

/-- The entry is in a thread's hazard cell; a null cell has none. -/
def Hazardous (f : Filter) (entry : Address) : Prop :=
  entry ≠ 0 ∧ ∃ i < f.hazardPtrsSize, ∃ j < maxHazardPointerCount,
    f.system.memory.hazardPtrs i j = entry

instance (f : Filter) (entry : Address) : Decidable (f.Hazardous entry) :=
  inferInstanceAs (Decidable (_ ∧ _))

/-- What is safe to delete is deleted, once, and nothing else happens. -/
structure Reclaims (f : Filter) (tid : Nat) : Prop where
  kept : (f.freeHazardPointers tid).1.retired tid =
    (f.retired tid).filter fun entry => f.Hazardous entry
  freed : ∀ entry ∈ f.retired tid, ¬f.Hazardous entry →
    (f.freeHazardPointers tid).2.count entry = 1
  spared : ∀ entry, f.Hazardous entry → entry ∉ (f.freeHazardPointers tid).2
  only : ∀ entry ∈ (f.freeHazardPointers tid).2, entry ∈ f.retired tid
  heap : ∀ entry, (f.freeHazardPointers tid).1.system.memory.heap entry =
    if entry ∈ (f.freeHazardPointers tid).2 then none else f.system.memory.heap entry
  others : ∀ other, other ≠ tid → (f.freeHazardPointers tid).1.retired other = f.retired other
  cells : (f.freeHazardPointers tid).1.system.memory.hazardPtrs = f.system.memory.hazardPtrs
  table : (f.freeHazardPointers tid).1.system.memory.hashTable = f.system.memory.hashTable
  again : (f.freeHazardPointers tid).1.freeHazardPointers tid = ((f.freeHazardPointers tid).1,[])

variable {f : Filter} {tid : Nat} {list deleted : List Address}

@[simp] theorem settle_retired : (f.settle tid list deleted).retired tid = list := by
  simp [settle,retired]

theorem settle_retired_other (away : other ≠ tid) :
    (f.settle tid list deleted).retired other = f.retired other := by
  simp [settle,retired,away]

@[simp] theorem settle_cells :
    (f.settle tid list deleted).system.memory.hazardPtrs = f.system.memory.hazardPtrs := by
  simp [settle,delete_all]

@[simp] theorem settle_table :
    (f.settle tid list deleted).system.memory.hashTable = f.system.memory.hashTable := by
  simp [settle,delete_all]

theorem settle_heap (entry : Address) : (f.settle tid list deleted).system.memory.heap entry =
    if entry ∈ deleted then none else f.system.memory.heap entry := by
  simp [settle,delete_all]

theorem settle_same : (f.settle tid list deleted).settle tid list [] = f.settle tid list deleted := by
  have same : (fun i => if i = tid then list else (f.settle tid list deleted).retired i) =
      fun i => if i = tid then list else f.retired i := by
    funext i
    by_cases own : i = tid
    · simp [own]
    · simp [own,settle_retired_other own]
  rw [settle,same]
  rfl

theorem mem_hazardRecord (counted : f.threadCount = f.hazardPtrsSize) :
    entry ∈ f.hazardRecord ↔ f.Hazardous entry := by
  have rows : f.threadCount.toNat = f.hazardPtrsSize := by omega
  simp only [hazardRecord,inspected,rows,List.mem_filter,List.mem_flatMap,List.mem_map,
    List.mem_range,decide_eq_true_eq,Hazardous]
  exact and_comm

theorem oldCount_le (f : Filter) (tid : Nat) : (f.oldCount tid).toNat ≤ (f.retired tid).length := by
  rw [oldCount,BitVec.toInt_eq_toNat_cond,BitVec.toNat_ofNat]
  have := Nat.mod_le (f.retired tid).length (2 ^ 32)
  split
  · omega
  · omega

theorem oldCount_whole (f : Filter) (tid : Nat) :
    (f.oldCount tid).toNat = (f.retired tid).length ↔ (f.retired tid).length < 2 ^ 31 := by
  rw [oldCount,BitVec.toInt_eq_toNat_cond,BitVec.toNat_ofNat]
  split
  · omega
  · omega

theorem free_spec (f : Filter) (tid : Nat) : f.freeHazardPointers tid =
    (f.settle tid (((f.retired tid).take (f.oldCount tid).toNat).filter (f.hazardRecord.contains ·))
      (((f.retired tid).take (f.oldCount tid).toNat).filter (!f.hazardRecord.contains ·)),
    ((f.retired tid).take (f.oldCount tid).toNat).filter (!f.hazardRecord.contains ·)) := by
  have compacted :=
    Compaction.loop_compacted (f.hazardRecord.contains ·) (f.retired tid) (oldCount_le f tid)
  have short := compacted.write_le
  have inside := oldCount_le f tid
  rw [freeHazardPointers]
  simp only [resized,compacted.length,compacted.written,compacted.dropped]
  rw [Nat.sub_eq_zero_of_le (short.trans inside),List.replicate_zero,List.append_nil]

theorem free_short (counted : f.threadCount = f.hazardPtrsSize)
    (short : (f.retired tid).length < 2 ^ 31) : f.freeHazardPointers tid =
      (f.settle tid ((f.retired tid).filter fun entry => f.Hazardous entry)
        ((f.retired tid).filter fun entry => ¬f.Hazardous entry),
      (f.retired tid).filter fun entry => ¬f.Hazardous entry) := by
  have hazards : (f.hazardRecord.contains ·) = fun entry => decide (f.Hazardous entry) := by
    funext entry
    rw [List.contains_eq_mem]
    exact decide_eq_decide.mpr (mem_hazardRecord counted)
  have others : (!f.hazardRecord.contains ·) = fun entry => decide ¬f.Hazardous entry := by
    funext entry
    rw [decide_not]
    exact congrArg (!·) (congrFun hazards entry)
  rw [free_spec,(oldCount_whole f tid).mpr short,List.take_length,hazards,others]

theorem short_reclaims (counted : f.threadCount = f.hazardPtrsSize)
    (distinct : (f.retired tid).Nodup) (short : (f.retired tid).length < 2 ^ 31) :
    f.Reclaims tid := by
  have call := free_short counted short
  generalize kept : (f.retired tid).filter (fun entry => f.Hazardous entry) = list at call
  generalize lost : (f.retired tid).filter (fun entry => ¬f.Hazardous entry) = deleted at call
  have once : deleted.Nodup := by
    rw [← lost]
    exact distinct.filter _
  have freed (entry : Address) : entry ∈ deleted ↔ entry ∈ f.retired tid ∧ ¬f.Hazardous entry := by
    rw [← lost,List.mem_filter,decide_eq_true_eq]
  have again : (f.settle tid list deleted).freeHazardPointers tid =
      (f.settle tid list deleted,[]) := by
    have shorter : ((f.settle tid list deleted).retired tid).length < 2 ^ 31 := by
      rw [settle_retired,← kept]
      exact (List.length_filter_le _ _).trans_lt short
    have same (entry : Address) : (f.settle tid list deleted).Hazardous entry ↔ f.Hazardous entry := by
      simp only [Hazardous,settle_cells]
      rfl
    have stays : list.filter (fun entry => f.Hazardous entry) = list := by
      rw [← kept,List.filter_filter]
      simp only [Bool.and_self]
    have none : list.filter (fun entry => ¬f.Hazardous entry) = [] := by
      rw [← kept,List.filter_filter]
      simp
    have agrees : (f.settle tid list deleted).threadCount =
        (f.settle tid list deleted).hazardPtrsSize := counted
    rw [free_short agrees shorter]
    simp only [settle_retired,same,stays,none,settle_same]
  refine ⟨?_,?_,?_,?_,?_,?_,?_,?_,?_⟩
  · rw [call,settle_retired,kept]
  · intro entry member safe
    rw [call]
    exact List.count_eq_one_of_mem once ((freed entry).mpr ⟨member,safe⟩)
  · intro entry hazardous
    rw [call,freed]
    exact fun both => both.2 hazardous
  · intro entry
    rw [call,freed]
    exact And.left
  · intro entry
    rw [call,settle_heap]
  · intro other away
    rw [call,settle_retired_other away]
  · rw [call,settle_cells]
  · rw [call,settle_table]
  · rw [call,again]

/-- The entry where the count ends is neither kept nor deleted. -/
theorem reclaims_short (distinct : (f.retired tid).Nodup) (reclaims : f.Reclaims tid) :
    (f.retired tid).length < 2 ^ 31 := by
  rw [← oldCount_whole]
  by_contra stops
  have early : (f.oldCount tid).toNat < (f.retired tid).length :=
    Nat.lt_of_le_of_ne (oldCount_le f tid) stops
  generalize count : (f.oldCount tid).toNat = n at early
  have beyond : (f.retired tid)[n] ∉ (f.retired tid).take n := by
    intro member
    obtain ⟨i,inside,same⟩ := List.mem_take_iff_getElem.mp member
    have position := (distinct.getElem_inj_iff).mp same
    omega
  have member : (f.retired tid)[n] ∈ f.retired tid := List.getElem_mem early
  by_cases hazardous : f.Hazardous (f.retired tid)[n]
  · have kept : (f.retired tid)[n] ∈ (f.freeHazardPointers tid).1.retired tid := by
      rw [reclaims.kept,List.mem_filter]
      exact ⟨member,by simpa using hazardous⟩
    rw [free_spec,settle_retired,count] at kept
    exact beyond (List.mem_filter.mp kept).1
  · have freed : (f.retired tid)[n] ∈ (f.freeHazardPointers tid).2 := by
      rw [← List.count_pos_iff,reclaims.freed _ member hazardous]
      exact Nat.one_pos
    rw [free_spec,count] at freed
    exact beyond (List.mem_filter.mp freed).1

/-- The call reclaims exactly when the length of the list is an `int`. -/
theorem reclaims_iff (counted : f.threadCount = f.hazardPtrsSize)
    (distinct : (f.retired tid).Nodup) :
    f.Reclaims tid ↔ (f.retired tid).length < 2 ^ 31 :=
  ⟨reclaims_short distinct,short_reclaims counted distinct⟩

/-- Thread 1 protects the second of thread 0's retired entries. -/
def protectingFilter : Filter :=
  ⟨1,2,false,1,2,2,⟨{ Memory.initial with
    hazardPtrs := fun i j => if i = 1 ∧ j = 0 then 4 else 0
    retiredPtrs := fun i => if i = 0 then [2,4,6] else []
    heap := fun entry => if entry ∈ [2,4,6] then some [] else none },fun _ => .idle⟩⟩

theorem protecting_filter_reclaims : protectingFilter.Reclaims 0 :=
  (reclaims_iff rfl (by decide)).mpr (by decide)

def retiringFilter (n : Nat) : Filter :=
  ⟨1,1,false,1,1,1,⟨{ Memory.initial with
    retiredPtrs := fun _ => (List.range n).map fun k => BitVec.ofNat 64 (2 * (k + 1))
    heap := fun entry => if entry = 0 then none else some [] },fun _ => .idle⟩⟩

theorem retiring_length (n : Nat) : ((retiringFilter n).retired 0).length = n := by
  simp [retired,retiringFilter]

theorem retiring_nodup (small : n ≤ 2 ^ 46) : ((retiringFilter n).retired 0).Nodup := by
  refine List.Nodup.map_on ?_ List.nodup_range
  intro i inside j inside' same
  have i_lt := List.mem_range.mp inside
  have j_lt := List.mem_range.mp inside'
  have values := congrArg BitVec.toNat same
  simp only [BitVec.toNat_ofNat] at values
  omega

/-- From `2^31` entries on, the count is not the size. -/
theorem long_list_lost : ¬∀ f : Filter, f.threadCount = f.hazardPtrsSize → ∀ tid,
    (f.retired tid).Nodup → f.Reclaims tid := by
  intro reclaims
  have distinct := retiring_nodup (n := 2 ^ 31) (by decide)
  have short := reclaims_short distinct (reclaims (retiringFilter (2 ^ 31)) rfl 0 distinct)
  rw [retiring_length] at short
  exact Nat.lt_irrefl _ short

end Filter

end CuckooFilter.LockFree
