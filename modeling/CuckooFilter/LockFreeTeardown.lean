import CuckooFilter.LockFreeOwnership
import CuckooFilter.LockFreeReclaim
import CuckooFilter.LockFreeRest

/-! The destructor. It deletes what it finds in the slots; retired entries, and those that an
insertion allocated and could not store, stay on the heap. -/
namespace CuckooFilter.LockFree

variable {cfg : Config} {s t : System} {m : Memory} {tid : Nat}

/-- The body of the destructor's loops. -/
def Memory.deleteSlot (state : Memory × List Address) (slot : Nat × Nat) : Memory × List Address :=
  let ptr := getRealPointer (state.1.hashTable slot.1 slot.2)
  if ptr ≠ 0 then (state.1.delete ptr,state.2 ++ [ptr]) else state

/-- `~LockFreeCuckooFilter`, which `reset` begins with too. The result carries the entries in
the order of their `delete`. -/
def Memory.destroy (tableSize : Nat) (m : Memory) : Memory × List Address :=
  (List.range tableSize).foldl (fun state i =>
    (List.range numItemsPerEntry).foldl (fun state j => Memory.deleteSlot state (i,j)) state) (m,[])

def Memory.occupant (m : Memory) (slot : Nat × Nat) : Option Address :=
  Option.guard (· ≠ 0) (getRealPointer (m.hashTable slot.1 slot.2))

theorem occupant_iff : m.occupant (b,i) = some entry ↔
    getRealPointer (m.hashTable b i) = entry ∧ entry ≠ 0 := by
  simp only [Memory.occupant,Option.guard_eq_some_iff,decide_eq_true_eq]
  exact and_congr_right fun same => by rw [same]

/-- The entries in the table, in the order of the loops. -/
def Memory.occupants (tableSize : Nat) (m : Memory) : List Address :=
  ((List.range tableSize).product (List.range numItemsPerEntry)).filterMap m.occupant

theorem mem_occupants : entry ∈ m.occupants tableSize ↔ entry ≠ 0 ∧
    ∃ b < tableSize, ∃ i < numItemsPerEntry, getRealPointer (m.hashTable b i) = entry := by
  simp only [Memory.occupants,List.mem_filterMap,Prod.exists,List.pair_mem_product,List.mem_range,
    occupant_iff]
  constructor
  · rintro ⟨b,i,⟨bucket,slot⟩,holds,present⟩
    exact ⟨present,b,bucket,i,slot,holds⟩
  · rintro ⟨present,b,bucket,i,slot,holds⟩
    exact ⟨b,i,⟨bucket,slot⟩,holds,present⟩

/-- A `delete` leaves the slots as they are, so the loops delete what was there at first. -/
theorem deleteSlot_all (m : Memory) (slots : List (Nat × Nat)) (deleted : List Address) :
    slots.foldl Memory.deleteSlot (deleted.foldl Memory.delete m,deleted) =
      ((deleted ++ slots.filterMap m.occupant).foldl Memory.delete m,
        deleted ++ slots.filterMap m.occupant) := by
  induction slots generalizing deleted with
  | nil => simp
  | cons slot rest ih =>
    have table : (deleted.foldl Memory.delete m).hashTable = m.hashTable := by rw [delete_all]
    rw [List.foldl_cons,Memory.deleteSlot,table]
    by_cases empty : getRealPointer (m.hashTable slot.1 slot.2) = 0
    · rw [if_neg (not_not.mpr empty),ih,
        List.filterMap_cons_none (by simp [Memory.occupant,empty])]
    · have next : (deleted.foldl Memory.delete m).delete
            (getRealPointer (m.hashTable slot.1 slot.2)) =
          (deleted ++ [getRealPointer (m.hashTable slot.1 slot.2)]).foldl Memory.delete m := by
        rw [List.foldl_append]
        rfl
      rw [if_pos empty,next,ih,
        List.filterMap_cons_some (occupant_iff.mpr ⟨rfl,empty⟩),List.append_assoc,
        List.singleton_append]

theorem destroy_spec (tableSize : Nat) (m : Memory) : m.destroy tableSize =
    ((m.occupants tableSize).foldl Memory.delete m,m.occupants tableSize) := by
  have nested : m.destroy tableSize =
      ((List.range tableSize).product (List.range numItemsPerEntry)).foldl Memory.deleteSlot
        (m,[]) := by
    rw [Memory.destroy,List.product,List.foldl_flatMap]
    simp only [List.foldl_map]
  rw [nested]
  exact deleteSlot_all m _ []

@[simp] theorem destroy_deleted : (m.destroy tableSize).2 = m.occupants tableSize := by
  rw [destroy_spec]

@[simp] theorem destroy_heap (entry : Address) : (m.destroy tableSize).1.heap entry =
    if entry ∈ m.occupants tableSize then none else m.heap entry := by
  rw [destroy_spec,delete_all]

/-- `reset` deletes the same entries. -/
theorem reset_destroys {f g : Filter} (null : f.system.memory.heap 0 = none)
    (done : f.reset capacity threads = some g) :
    g.system.memory.heap = (f.system.memory.destroy f.tableSize.toNat).1.heap := by
  unfold Filter.reset at done
  simp only [Option.bind_eq_bind,Option.bind_eq_some_iff,Filter.resize_eq_some] at done
  obtain ⟨buckets,-,rows,-,lists,-,done⟩ := done
  cases done
  funext entry
  have stores : f.stores entry = true ↔ ∃ b < f.tableSize.toNat, ∃ i < numItemsPerEntry,
      getRealPointer (f.system.memory.hashTable b i) = entry := by
    simp [Filter.stores]
  rw [destroy_heap]
  show (if f.stores entry = true then none else f.system.memory.heap entry) = _
  by_cases zero : entry = 0
  · subst zero
    rw [null,ite_self,ite_self]
  · simp only [stores,mem_occupants,ne_eq,zero,not_false_eq_true,true_and]

structure Refused (s : System) (lost : List Address) : Prop where
  once : lost.Nodup
  members : ∀ entry, entry ∈ lost ↔ Lost s entry
  count : lost.length = s.memory.refusals.length

theorem refused_initial : Refused System.initial [] := by
  refine ⟨List.nodup_nil,fun entry => ?_,rfl⟩
  rw [List.mem_nil_iff,false_iff]
  exact fun lost => lost.allocated rfl

theorem refused_step (sound : Sound cfg s) (refused : Refused s lost) (moved : StepBy cfg tid s t) :
    ∃ lost, Refused t lost := by
  obtain ⟨once,members,count⟩ := refused
  have same (answers : t.memory.refusals = s.memory.refusals) : Refused t lost := by
    refine ⟨once,fun entry => ⟨fun member => lost_step ((members entry).mp member) moved,?_⟩,
      by rw [answers,count]⟩
    intro now
    rcases lost_since moved now with before | ⟨-,-,key,refusal⟩
    · exact (members entry).mpr before
    · have longer := congrArg List.length (answers.symm.trans refusal)
      simp at longer
  obtain ⟨-,⟨action,raw⟩,-⟩ := stepBy_cases moved
  cases threadStep_handed raw with
  | kept _ answers | given _ _ _ answers | stored _ _ answers => exact ⟨lost,same answers⟩
  | @refused handed _ was now answers unstored =>
    refine ⟨handed :: lost,List.nodup_cons.mpr ⟨fun member => ?_,once⟩,fun entry => ?_,
      by rw [answers,List.length_cons,List.length_cons,count]⟩
    · exact ((members handed).mp member).unowned tid was
    · rw [List.mem_cons]
      constructor
      · rintro (rfl | member)
        · exact refused_lost sound moved was now unstored
        · exact lost_step ((members entry).mp member) moved
      · intro lost
        rcases lost_since moved lost with before | ⟨own,-⟩
        · exact .inr ((members entry).mpr before)
        · exact .inl (Option.some.inj (own.symm.trans was))

theorem reachable_refused (reachable : Reachable cfg s) : ∃ lost, Refused s lost :=
  (Transition.run_invariant (fun s => Sound cfg s ∧ ∃ lost, Refused s lost)
    (fun _ _ ⟨sound,_,refused⟩ ⟨_,_,moved⟩ =>
      ⟨sound_step sound moved,refused_step sound refused moved⟩)
    ⟨sound_initial cfg,[],refused_initial⟩ reachable).2

/-- Each thread's list has what its own removals took out. -/
def Memory.Filed (m : Memory) : Prop := ∀ tid,
  m.retiredPtrs tid = ((m.removed.filter fun x => x.tid = tid).map Transfer.entry).reverse

theorem filed_step (filed : s.memory.Filed) (moved : StepBy cfg tid s t) : t.memory.Filed := by
  cases step_report moved with
  | silent same =>
    rw [Memory.Filed,same.removed,same.retired]
    exact filed
  | stored _ _ _ removed retired | answered _ _ _ _ _ _ removed retired =>
    rw [Memory.Filed,removed,retired]
    exact filed
  | removed transfer _ _ removed retired =>
    have own : transfer.tid = tid := by
      rcases removed_step (stepBy_thread moved) with same | ⟨_,_,_,_,_,_,newest⟩
      · have longer := congrArg List.length (same.symm.trans removed)
        simp at longer
      · rw [removed] at newest
        rw [(List.cons.inj newest).1]
    intro other
    rw [removed,retired,List.filter_cons,own]
    by_cases same : other = tid
    · subst same
      simp [filed other]
    · have apart : tid ≠ other := Ne.symm same
      simp [same,apart,filed other]

theorem reachable_filed (reachable : Reachable cfg s) : s.memory.Filed :=
  Transition.run_invariant (fun s => s.memory.Filed)
    (fun _ _ filed ⟨_,_,moved⟩ => filed_step filed moved) (fun _ => rfl) reachable

/-- The removals that answered true and the insertions that answered false: each leaves an
entry on the heap. -/
def Memory.outstanding (m : Memory) : Nat :=
  (m.returned.filterMap removedKey).length + m.refusals.length

/-- What the destructor does with a filter at rest, when `earlier` entries are on the heap
that this filter knows nothing of. -/
structure Scrapped (tableSize earlier : Nat) (m : Memory) : Prop where
  once : (m.destroy tableSize).2.Nodup
  live : ∀ entry ∈ (m.destroy tableSize).2, m.heap entry ≠ none
  stored : ∀ entry, entry ∈ (m.destroy tableSize).2 ↔
    ∃ x ∈ m.stored, x.entry = entry ∧ entry ∉ m.taken
  filed : m.Filed
  spared : ∀ tid, ∀ entry ∈ m.retiredPtrs tid, entry ∉ (m.destroy tableSize).2
  left : ∃ left : List Address, left.Nodup ∧
    (∀ entry, entry ∈ left ↔ (m.destroy tableSize).1.heap entry ≠ none) ∧
    left.length = earlier + m.outstanding

theorem rest_allocated (sound : Sound cfg s) (idle : ∀ tid, s.control tid = .idle) :
    s.memory.heap entry ≠ none ↔ entry ∈ s.memory.entries ∨ Lost s entry := by
  constructor
  · intro allocated
    by_cases stored : entry ∈ s.memory.entries
    · exact .inl stored
    · refine .inr ⟨allocated,fun tid => ?_,fun x member same => ?_⟩
      · rw [idle tid]
        simp [Control.unstored?]
      · exact stored (same ▸ List.mem_map_of_mem member)
  · rintro (stored | lost)
    · obtain ⟨x,member,rfl⟩ := List.mem_map.mp stored
      rw [(sound.stored x member).2]
      simp
    · exact lost.allocated

theorem clean_occupants (reachable : Reachable cfg s) (clean : s.memory.Clean cfg)
    (tableSize : Nat) : (s.memory.occupants tableSize).Nodup := by
  refine List.Nodup.filterMap ?_ (List.nodup_range.product List.nodup_range)
  rintro ⟨b,i⟩ ⟨b',i'⟩ entry here there
  obtain ⟨holds,present⟩ := occupant_iff.mp here
  obtain ⟨holds',-⟩ := occupant_iff.mp there
  obtain ⟨rfl,rfl⟩ :=
    single_everywhere reachable clean (holds.symm ▸ present) (holds'.trans holds.symm)
  rfl

theorem rest_occupants (power : cfg.tableSize = 2 ^ e)
    (run : Run cfg (Regular cfg) System.initial s) : entry ∈ s.memory.occupants cfg.tableSize ↔
      ∃ x ∈ s.memory.stored, x.entry = entry ∧ entry ∉ s.memory.taken := by
  have guarded : Run cfg (Guarded cfg) System.initial s :=
    run.weaken fun _ _ regular => regular.1
  rw [mem_occupants]
  constructor
  · rintro ⟨present,b,bucket,i,slot,rfl⟩
    obtain ⟨x,stored,same,-⟩ := slot_stored (reachable_placed power run.reachable) present
    refine ⟨x,stored,same.symm,?_⟩
    rw [same]
    exact (live_inTable power guarded stored).mpr ⟨b,bucket,i,slot,same⟩
  · rintro ⟨x,stored,rfl,untaken⟩
    exact ⟨((reachable_sound run.reachable).stored x stored).1,
      (live_inTable power guarded stored).mp untaken⟩

/-- When every call of a regular run has answered, the destructor deletes the entries in the
table, each once and none that a thread has retired. It leaves one for every removal that
answered true and one for every insertion that answered false. -/
theorem rest_scrapped (power : cfg.tableSize = 2 ^ e) (run : Run cfg (Regular cfg) System.initial s)
    (idle : ∀ tid, s.control tid = .idle) : Scrapped cfg.tableSize 0 s.memory := by
  have sound := reachable_sound run.reachable
  have answered := reachable_answered run.reachable
  have single := run_single power (run.weaken fun _ _ regular => regular.1.1)
  have deleted (entry : Address) : entry ∈ s.memory.occupants cfg.tableSize ↔
      ∃ x ∈ s.memory.stored, x.entry = entry ∧ entry ∉ s.memory.taken := rest_occupants power run
  obtain ⟨lost,refused⟩ := reachable_refused run.reachable
  refine ⟨?_,fun entry member => ?_,fun entry => ?_,reachable_filed run.reachable,
    fun tid entry member => ?_,s.memory.taken ++ lost,?_,fun entry => ?_,?_⟩
  · rw [destroy_deleted]
    exact clean_occupants run.reachable (rest_clean power run idle) cfg.tableSize
  · rw [destroy_deleted,deleted] at member
    obtain ⟨x,stored,rfl,-⟩ := member
    exact (rest_allocated sound idle).mpr (.inl (List.mem_map_of_mem stored))
  · rw [destroy_deleted,deleted]
  · rw [destroy_deleted,deleted]
    rintro ⟨x,-,rfl,untaken⟩
    exact untaken (answered.retired tid x.entry member)
  · refine single.once.append refused.once fun entry taken refusal => ?_
    obtain ⟨x,stored,same⟩ := List.mem_map.mp (single.known entry taken)
    exact ((refused.members entry).mp refusal).unstored x stored same
  · rw [destroy_heap,List.mem_append,refused.members]
    by_cases member : entry ∈ s.memory.occupants cfg.tableSize
    · obtain ⟨x,stored,rfl,untaken⟩ := (deleted entry).mp member
      rw [if_pos member]
      simp only [untaken,false_or,ne_eq,not_true_eq_false,iff_false]
      exact fun lost => lost.unstored x stored rfl
    · rw [if_neg member,rest_allocated sound idle]
      refine or_congr_left ⟨single.known entry,fun stored => ?_⟩
      obtain ⟨x,there,rfl⟩ := List.mem_map.mp stored
      by_contra untaken
      exact member ((deleted x.entry).mpr ⟨x,there,rfl,untaken⟩)
  · rw [List.length_append,refused.count,Memory.taken,List.length_map,Memory.outstanding,
      answered.removed,List.length_map,Nat.zero_add]

end CuckooFilter.LockFree
