import CuckooFilter.BagHistory
import CuckooFilter.LockFreeLinear
import CuckooFilter.LockFreeMarks

/-! The table at rest. When every call of a guarded run has answered, no slot is marked,
every entry sits in one slot, and the table holds what the answers say: the end of a
concurrent run looks like the end of a run of one thread. -/
namespace CuckooFilter.LockFree

variable {cfg : Config} {origin s t : System} {m : Memory} {tid : Nat}

/-- Of two slots with one entry, one is marked: the source of a move that is not over. -/
def Paired (s : System) : Prop :=
  ∀ b c i, b ≠ c → getRealPointer (s.memory.hashTable b i) ≠ 0 →
    getRealPointer (s.memory.hashTable c i) = getRealPointer (s.memory.hashTable b i) →
    getMarked (s.memory.hashTable b i) = true ∨ getMarked (s.memory.hashTable c i) = true

theorem paired_initial : Paired System.initial := by
  intro b c i _ present
  exact absurd getRealPointer_null present

theorem paired_slot (power : cfg.tableSize = 2 ^ e) (single : Single cfg s) (paired : Paired s)
    (moved : StepBy cfg tid s t) (apart : b ≠ c)
    (kept : t.memory.hashTable c i = s.memory.hashTable c i)
    (present : getRealPointer (t.memory.hashTable b i) ≠ 0)
    (holds : getRealPointer (s.memory.hashTable c i) = getRealPointer (t.memory.hashTable b i)) :
    getMarked (t.memory.hashTable b i) = true ∨ getMarked (s.memory.hashTable c i) = true := by
  have placed := reachable_placed power single.reachable
  have sound := placed.accounted.formed.sound
  obtain ⟨x,stored,entry,place⟩ := slot_stored placed (holds ▸ present)
  cases threadStep_slot (stepBy_thread moved) b i with
  | kept same =>
    rw [same] at present holds ⊢
    exact paired b c i apart present holds
  | @store frame second ptr1 site pc bucket found created =>
    have own : (s.control tid).unstored? = some frame.newEntry := by
      simp [site,Control.unstored?,pc]
    rw [createPointer_real created (sound_known sound own),entry] at holds
    exact absurd (holds ▸ own) ((known_entry sound stored).2 tid)
  | take _ _ _ _ _ created =>
    exact absurd (createPointer_real created null_fits) present
  | mark inside pc bucket slot found same =>
    rw [same,getNewMark_marked]
    exact .inl rfl
  | @copy f ptr1 ptr2 inside pc slot found created =>
    -- The other slot with the entry can only be the source, which is marked.
    subst slot
    rw [createPointer_real created (getRealPointer_fits _)] at holds
    obtain ⟨other,source⟩ := copy_source single inside pc found
    have shape := placed.accounted.formed.help tid f inside
    simp only [HelpFrame.Formed,pc] at shape
    have home : x.At cfg f.tableIdx f.slotIdx :=
      placed.slots x stored _ _ (by rw [source,← holds,entry])
    have away : x.At cfg b f.slotIdx := by
      rw [shape.2.1,target_alternate sound stored (holds.symm.trans entry)]
      exact at_alternate power home
    obtain rfl : f.tableIdx = c := at_two_buckets place away home (Ne.symm apart) (Ne.symm other)
    rw [source]
    exact .inr shape.1.1
  | clear _ _ _ _ _ created =>
    exact absurd (createPointer_real created null_fits) present
  | complete _ _ _ _ created =>
    exact absurd (createPointer_real created null_fits) present
  | rollBack _ _ _ _ created =>
    exact .inl (createPointer_marked created (getRealPointer_fits _))

theorem paired_step (power : cfg.tableSize = 2 ^ e) (single : Single cfg s) (paired : Paired s)
    (moved : StepBy cfg tid s t) : Paired t := by
  intro b c i apart present holds
  by_cases kept : t.memory.hashTable c i = s.memory.hashTable c i
  · rw [kept] at holds ⊢
    exact paired_slot power single paired moved apart kept present holds
  · have other : t.memory.hashTable b i = s.memory.hashTable b i :=
      step_other_slot moved kept fun both => apart both.1
    rw [other] at present holds ⊢
    exact (paired_slot power single paired moved (Ne.symm apart) other (holds ▸ present)
      holds.symm).symm

theorem run_paired (power : cfg.tableSize = 2 ^ e)
    (run : Run cfg (fun tid s => ¬TakesCopy cfg tid s) System.initial s) : Paired s :=
  (Transition.run_invariant (fun s => Single cfg s ∧ Paired s)
    (fun _ _ ⟨single,paired⟩ ⟨_,lasts,moved⟩ =>
      ⟨single_step power single moved lasts,paired_step power single paired moved⟩)
    ⟨single_initial cfg,paired_initial⟩ run).2

/-- The guards of the other modules together: removals take last copies only, line 415
takes nothing out, and no mark is left without a thread in charge. -/
def Regular (cfg : Config) (tid : Nat) (s : System) : Prop :=
  Guarded cfg tid s ∧ ¬LeavesMark tid s

theorem rest_unmarked (run : Run cfg (fun tid s => ¬LeavesMark tid s) System.initial s)
    (idle : ∀ tid, s.control tid = .idle) (b i : Nat) :
    getMarked (s.memory.hashTable b i) = false := by
  have charged : Charged s := (Transition.run_invariant (fun s => Formed cfg s ∧ Charged s)
    (fun _ _ ⟨formed,charged⟩ ⟨_,keeps,moved⟩ =>
      ⟨formed_step formed moved,charged_step formed charged moved keeps⟩)
    ⟨formed_initial cfg,charged_initial⟩ run).2
  refine Bool.eq_false_of_not_eq_true fun marked => ?_
  obtain ⟨tid,f,inside,-⟩ := charged b i marked
  rw [idle tid] at inside
  contradiction

/-- A table at rest is one between the operations of a single thread. -/
theorem rest_clean (power : cfg.tableSize = 2 ^ e) (run : Run cfg (Regular cfg) System.initial s)
    (idle : ∀ tid, s.control tid = .idle) : s.memory.Clean cfg := by
  have unmarked := rest_unmarked (run.weaken fun _ _ regular => regular.2) idle
  have lasts : Run cfg (fun tid s => ¬TakesCopy cfg tid s) System.initial s :=
    run.weaken fun _ _ regular => regular.1.1
  have placed := reachable_placed power lasts.reachable
  refine ⟨fun b i _ => unmarked b i,fun b i b' i' _ _ present same => ?_⟩
  obtain ⟨x,stored,entry,place⟩ := slot_stored placed present
  have slot : i' = i := (placed.slots x stored b' i' (same.trans entry)).1.trans place.1.symm
  refine ⟨?_,slot⟩
  subst slot
  by_contra apart
  rcases run_paired power lasts b b' i' (Ne.symm apart) present same with marked | marked
  · rw [unmarked] at marked
    contradiction
  · rw [unmarked] at marked
    contradiction

def Memory.resident (cfg : Config) (m : Memory) (slot : Nat × Nat) : Option (Address × KeyClass) :=
  (m.fingerprint slot.1 slot.2).map fun string =>
    (getRealPointer (m.hashTable slot.1 slot.2),classAt cfg.tableSize slot.1 string)

theorem resident_iff (power : cfg.tableSize = 2 ^ e) (placed : Placed cfg s) :
    s.memory.resident cfg (b,i) = some pair ↔ ∃ x ∈ s.memory.stored,
      getRealPointer (s.memory.hashTable b i) = x.entry ∧ pair = (x.entry,cfg.keyClass x.key) := by
  have class_of (x : Transfer) (stored : x ∈ s.memory.stored)
      (entry : getRealPointer (s.memory.hashTable b i) = x.entry) :
      classAt cfg.tableSize b (s.memory.str (getRealPointer (s.memory.hashTable b i))) =
        cfg.keyClass x.key := by
    rw [entry,Memory.str,(placed.accounted.formed.sound.stored x stored).2]
    exact place_class power (placed.slots x stored b i entry)
  rw [Memory.resident,Option.map_eq_some_iff]
  constructor
  · rintro ⟨string,here,rfl⟩
    obtain ⟨present,rfl⟩ := fingerprint_some.mp here
    obtain ⟨x,stored,entry,-⟩ := slot_stored placed present
    exact ⟨x,stored,entry,by rw [class_of x stored entry,entry]⟩
  · rintro ⟨x,stored,entry,rfl⟩
    have present : getRealPointer (s.memory.hashTable b i) ≠ 0 :=
      entry ▸ (placed.accounted.formed.sound.stored x stored).1
    exact ⟨_,fingerprint_some.mpr ⟨present,rfl⟩,by rw [class_of x stored entry,entry]⟩

theorem clean_inTable (power : cfg.tableSize = 2 ^ e) (reachable : Reachable cfg s)
    (clean : s.memory.Clean cfg) : s.memory.bag cfg = s.memory.inTable cfg := by
  have placed := reachable_placed power reachable
  have pairs : Bag.contents (tableSlots cfg.tableSize) (s.memory.resident cfg) =
      ((s.memory.stored.filter fun x => InTable cfg s.memory x.entry).map fun x =>
        (x.entry,cfg.keyClass x.key) : List (Address × KeyClass)) := by
    refine (Multiset.Nodup.ext ?_ ?_).mpr fun pair => ?_
    · refine Multiset.Nodup.filterMap _ ?_ (tableSlots cfg.tableSize).nodup
      rintro ⟨b,i⟩ ⟨b',i'⟩ pair here there
      obtain ⟨x,stored,entry,rfl⟩ := (resident_iff power placed).mp here
      obtain ⟨y,-,entry',same⟩ := (resident_iff power placed).mp there
      have present := entry ▸ (placed.accounted.formed.sound.stored x stored).1
      obtain ⟨rfl,rfl⟩ :=
        single_everywhere reachable clean present (entry'.trans ((Prod.mk.inj same).1.symm.trans entry.symm))
      rfl
    · refine Multiset.coe_nodup.mpr (List.Nodup.of_map Prod.fst ?_)
      rw [List.map_map]
      exact placed.accounted.distinct.sublist (List.filter_sublist.map _)
    · rw [Bag.mem_contents,Multiset.mem_coe,List.mem_map]
      constructor
      · rintro ⟨⟨b,i⟩,slot,here⟩
        obtain ⟨x,stored,entry,rfl⟩ := (resident_iff power placed).mp here
        obtain ⟨bucket,slot⟩ := mem_tableSlots.mp slot
        exact ⟨x,List.mem_filter.mpr ⟨stored,decide_eq_true ⟨b,bucket,i,slot,entry⟩⟩,rfl⟩
      · rintro ⟨x,member,rfl⟩
        obtain ⟨stored,inside⟩ := List.mem_filter.mp member
        obtain ⟨b,bucket,i,slot,entry⟩ := of_decide_eq_true inside
        exact ⟨(b,i),mem_tableSlots.mpr ⟨bucket,slot⟩,
          (resident_iff power placed).mpr ⟨x,stored,entry,rfl⟩⟩
  have classes := congrArg (Multiset.map Prod.snd) pairs
  rw [Bag.contents,Multiset.map_filterMap,Multiset.map_coe,List.map_map] at classes
  rw [Memory.inTable]
  refine Eq.trans ?_ classes
  refine Bag.contents_congr fun slot _ => ?_
  simp [slotClass,Memory.resident,Option.map_map,Function.comp_def]

theorem recorded_answers {condition : Nat → System → Prop}
    (recorded : Recorded cfg condition System.initial history s) :
    Bag.answers (history.map (classEvent cfg)) = Bag.relabel cfg.keyClass s.memory.history := by
  induction recorded with
  | start => rfl
  | @invoke history tid call s t past allowed moved ih =>
    obtain ⟨-,memory,-⟩ := step_invoke_idle moved
    have same : t.memory.history = s.memory.history := by
      rw [memory]
      cases call <;> rfl
    rw [same]
    exact ih
  | inside _ _ _ _ silent ih => rw [ih,Memory.history,Memory.history,silent]
  | @respond history tid call response s t past allowed moved returned ih =>
    have newest : t.memory.history = (call.op,response.success) :: s.memory.history := by
      rw [Memory.history,returned]
      rfl
    rw [newest]
    exact congrArg (List.cons (call.op.map cfg.keyClass,response.success)) ih

theorem rest_bag (power : cfg.tableSize = 2 ^ e) (run : Run cfg (Regular cfg) System.initial s)
    (idle : ∀ tid, s.control tid = .idle) :
    s.memory.bag cfg + (Bag.removed s.memory.history).map cfg.keyClass =
      (Bag.inserted s.memory.history).map cfg.keyClass := by
  have guarded : Run cfg (Guarded cfg) System.initial s :=
    run.weaken fun _ _ regular => regular.1
  obtain ⟨history,recorded⟩ := run_recorded guarded
  have linearizes := recorded_linearizes power (recorded.weaken fun _ _ guarded => guarded.1)
  have balance :=
    Bag.linearizes_balance Bag.hasty_balances linearizes fun tid => phases_idle (idle tid)
  rw [zero_add,recorded_answers recorded,Bag.removed_relabel,Bag.inserted_relabel] at balance
  rw [clean_inTable power run.reachable (rest_clean power run idle),
    ← live_table power guarded]
  exact balance

/-- When every call of a regular run has answered, no slot is marked, every entry is in one
slot, and the classes in the table are those of the insertions that answered true without
those of the removals that did. -/
theorem rest_balances (power : cfg.tableSize = 2 ^ e) (run : Run cfg (Regular cfg) System.initial s)
    (idle : ∀ tid, s.control tid = .idle) :
    s.memory.Clean cfg ∧
      s.memory.bag cfg + (Bag.removed s.memory.history).map cfg.keyClass =
        (Bag.inserted s.memory.history).map cfg.keyClass :=
  ⟨rest_clean power run idle,rest_bag power run idle⟩

instance (tid : Nat) (s : System) : Decidable (Guarded cfg tid s ∧ AtGivingUp tid s = false) :=
  inferInstanceAs (Decidable (_ ∧ _))

/-- A step that keeps its guards outside lines 413 to 425 leaves no mark. -/
theorem regular_at (allowed : Guarded cfg tid s ∧ AtGivingUp tid s = false) :
    Regular cfg tid s := by
  refine ⟨allowed.1,fun leaves => ?_⟩
  have away := allowed.2
  rw [leavesMark_givingUp leaves] at away
  contradiction

theorem regular_of (run : Run cfg (fun tid s => Guarded cfg tid s ∧ AtGivingUp tid s = false)
    System.initial s) : Run cfg (Regular cfg) System.initial s :=
  run.weaken fun _ _ => regular_at

/-- Thread 1 removes `a` while thread 0 is in the insertion that moved it; both finish. -/
def restedSchedule : List (Nat × Action) := clearedSchedule ++ runs 0 2

theorem rested_regular :
    Run sampleConfig (Regular sampleConfig) System.initial (endState sampleConfig restedSchedule) :=
  regular_of (endState_run _ restedSchedule (by decide +kernel))

theorem rested_idle (tid : Nat) : (endState sampleConfig restedSchedule).control tid = .idle :=
  endState_idle sampleConfig restedSchedule (n := 2) (by decide) (by decide +kernel) tid

theorem rested_balances : (endState sampleConfig restedSchedule).memory.Clean sampleConfig ∧
    (endState sampleConfig restedSchedule).memory.bag sampleConfig +
        (Bag.removed (endState sampleConfig restedSchedule).memory.history).map
          sampleConfig.keyClass =
      (Bag.inserted (endState sampleConfig restedSchedule).memory.history).map
        sampleConfig.keyClass :=
  rest_balances (e := 1) rfl rested_regular rested_idle

end CuckooFilter.LockFree
