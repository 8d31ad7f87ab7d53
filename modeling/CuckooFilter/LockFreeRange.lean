import CuckooFilter.LockFreePlacement

/-! Every slot the program touches is in the table, whatever the capacity. -/
namespace CuckooFilter.LockFree

variable {cfg : Config}

/-- A slot of the table. -/
def Config.Slot (cfg : Config) (b i : Nat) : Prop := b < cfg.tableSize ∧ i < numItemsPerEntry

def FindFrame.Inside (cfg : Config) (f : FindFrame) : Prop :=
  f.hash1 < cfg.tableSize ∧ f.hash2 < cfg.tableSize ∧ f.slot < numItemsPerEntry ∧
    ∀ g, f.help? = some g → cfg.Slot g.tableIdx g.slotIdx

def RelocateFrame.Inside (cfg : Config) (f : RelocateFrame) : Prop :=
  cfg.Slot f.tableIdx f.slotIdx ∧ (∀ source ∈ f.route, source < cfg.tableSize) ∧
    ∀ g, f.help? = some g → cfg.Slot g.tableIdx g.slotIdx

def InsertFrame.Inside (cfg : Config) (f : InsertFrame) : Prop :=
  f.hash1 < cfg.tableSize ∧ f.hash2 < cfg.tableSize ∧
  match f.pc with
  | .allocate | .shuffle => True
  | .probe i _ _ | .store i _ _ => i < numItemsPerEntry
  | .kick rest frame => (∀ kickSlot ∈ rest, kickSlot < numItemsPerEntry) ∧ frame.Inside cfg

def Control.Inside (cfg : Config) : Control → Prop
  | .idle => True
  | .insert frame => frame.Inside cfg
  | .find _ frame => frame.Inside cfg
  | .remove frame => frame.hash1 < cfg.tableSize ∧ frame.hash2 < cfg.tableSize ∧
      ∀ search, frame.find? = some search → search.Inside cfg

@[simp] theorem occupied_site (f : HelpFrame) (ptr1 : TablePointer) (p : Address) (newHash : Nat) :
    (f.occupied ptr1 p newHash).tableIdx = f.tableIdx ∧
    (f.occupied ptr1 p newHash).slotIdx = f.slotIdx ∧
    (f.occupied ptr1 p newHash).initiator = f.initiator := by
  unfold HelpFrame.occupied
  split <;> exact ⟨rfl,rfl,rfl⟩

theorem helpStep_site (stepped : HelpStep cfg m f next (.running after)) :
    after.tableIdx = f.tableIdx ∧ after.slotIdx = f.slotIdx ∧ after.initiator = f.initiator := by
  cases stepped with
  | filled => exact occupied_site _ _ _ _
  | copyLost => exact occupied_site _ _ _ _
  | _ => exact ⟨rfl,rfl,rfl⟩

theorem helpStep_inside (own : cfg.Slot f.tableIdx f.slotIdx)
    (stepped : HelpStep cfg m f next (.running after)) : cfg.Slot after.tableIdx after.slotIdx := by
  obtain ⟨table,slot,-⟩ := helpStep_site stepped
  rwa [table,slot]

theorem find_inside {f : FindFrame} (inside : f.Inside cfg)
    (running : (find cfg tid m f).2 = .running after) : after.Inside cfg := by
  obtain ⟨first,second,slot,call⟩ := inside
  have plain (pc : FindPc) (none : ∀ frame, pc ≠ .help frame) : (f.goto pc).Inside cfg := by
    refine ⟨first,second,slot,?_⟩
    intro g nested
    cases pc with
    | help frame => exact absurd rfl (none frame)
    | _ => contradiction
  cases pc : f.pc with
  | help frame =>
    have own := call frame (by simp [FindFrame.help?,pc])
    have stepped := helpRelocate_step cfg tid m frame
    simp only [find,pc] at running
    cases flow : helpRelocate cfg tid m frame with | mk next result =>
    rw [flow] at running stepped
    cases result with
    | running going =>
      cases running
      refine ⟨first,second,slot,?_⟩
      rintro _ ⟨⟩
      exact helpStep_inside own stepped
    | returned => cases running; exact plain _ (by simp)
  | readFirst =>
    simp only [find,pc] at running
    repeat' split at running
    all_goals cases running
    · exact plain _ (by simp)
    · refine ⟨first,second,slot,?_⟩
      rintro _ ⟨⟩
      exact ⟨first,slot⟩
    · exact plain _ (by simp)
  | readSecond ts1 =>
    simp only [find,pc] at running
    repeat' split at running
    all_goals cases running
    · exact plain _ (by simp)
    · refine ⟨first,second,slot,?_⟩
      rintro _ ⟨⟩
      exact ⟨second,slot⟩
    · exact plain _ (by simp)
  | recheckSecond ts1 ts2 ts1x =>
    simp only [find,pc,FindFrame.nextSlot] at running
    repeat' split at running
    · cases running; exact plain _ (by simp)
    · rename_i more
      cases running
      refine ⟨first,second,more,?_⟩
      rintro _ ⟨⟩
    · contradiction
  | _ =>
    simp only [find,pc] at running
    repeat' split at running
    all_goals first
      | contradiction
      | (cases running; exact plain _ (by simp))

theorem enter_inside (cfg : Config) (key : Bytes) : (FindFrame.enter cfg key).Inside cfg := by
  refine ⟨Nat.mod_lt _ cfg.positive,getNextHashIndex_lt cfg.positive _ _,?_,?_⟩
  · simp [FindFrame.enter,numItemsPerEntry]
  · rintro _ ⟨⟩

/-- What a flow satisfies if it goes on. -/
def Flow.Holds (property : Frame → Prop) : Flow Frame Result → Prop
  | .running frame => property frame
  | .returned _ => True

theorem Flow.holds_of_running {flow : Flow Frame Result}
    (running : ∀ frame, flow = .running frame → property frame) : flow.Holds property := by
  cases flow with
  | running frame => exact running frame rfl
  | returned => trivial

theorem sourceIdx_lt {f : RelocateFrame}
    (route : ∀ source ∈ f.route, source < cfg.tableSize) (depth : Int) :
    f.sourceIdx depth < cfg.tableSize := by
  unfold RelocateFrame.sourceIdx
  rw [List.getD_eq_getElem?_getD]
  cases read : f.route[depth.toNat]? with
  | none => exact cfg.positive
  | some source => exact route source (List.mem_of_getElem? read)

theorem pathDiscovery_inside {f : RelocateFrame} (inside : cfg.Slot f.tableIdx f.slotIdx)
    (startLevel : Int) : (f.pathDiscovery startLevel).Inside cfg := by
  refine ⟨inside,?_,by rintro _ ⟨⟩⟩
  intro source member
  rw [(List.mem_replicate.mp member).2]
  exact cfg.positive

theorem relocate_inside {f : RelocateFrame} (inside : f.Inside cfg) :
    (relocate cfg tid m f).2.Holds (·.Inside cfg) := by
  refine Flow.holds_of_running fun g flow => ?_
  obtain ⟨own,route,call⟩ := inside
  cases relocate_running flow with
  | discoverMarked =>
    refine ⟨own,route,?_⟩
    rintro _ ⟨⟩
    exact own
  | traverseMarked | move =>
    refine ⟨own,route,?_⟩
    rintro _ ⟨⟩
    exact ⟨sourceIdx_lt route _,own.2⟩
  | discoverHelping pc stepped | traverseHelping pc stepped | moving pc stepped =>
    refine ⟨own,route,?_⟩
    rintro _ ⟨⟩
    exact helpStep_inside (call _ (by simp [RelocateFrame.help?,pc])) stepped
  | deeper =>
    refine ⟨⟨getNextHashIndex_lt cfg.positive _ _,own.2⟩,?_,by rintro _ ⟨⟩⟩
    intro source member
    rcases List.mem_or_eq_of_mem_set member with old | rfl
    · exact route source old
    · exact own.1
  | restart => exact pathDiscovery_inside own _
  | occupied | found | discoverHelped | traverseHelped | source | skip | follow | moved =>
    exact ⟨own,route,by rintro _ ⟨⟩⟩

theorem nextProbe_inside {f : InsertFrame} (first : f.hash1 < cfg.tableSize)
    (second : f.hash2 < cfg.tableSize) (inside : i < numItemsPerEntry) (side foundEmpty : Bool) :
    (f.nextProbe i side foundEmpty).Inside cfg := by
  unfold InsertFrame.nextProbe
  repeat' split
  · exact ⟨first,second,inside⟩
  · exact ⟨first,second,by assumption⟩
  · exact ⟨first,second,by simp [InsertFrame.goto,numItemsPerEntry]⟩
  · exact ⟨first,second,trivial⟩

theorem nextKick_inside {f : InsertFrame} (first : f.hash1 < cfg.tableSize)
    (second : f.hash2 < cfg.tableSize) (rest : ∀ kickSlot ∈ order, kickSlot < numItemsPerEntry) :
    (f.nextKick order).Holds (·.Inside cfg) := by
  cases order with
  | nil => trivial
  | cons kickSlot rest' =>
    refine ⟨first,second,fun k member => rest k (List.mem_cons_of_mem _ member),?_⟩
    exact pathDiscovery_inside (f := ⟨f.hash1,kickSlot,[],0,.discover 0⟩)
      ⟨first,rest kickSlot List.mem_cons_self⟩ 0

theorem insert_inside {f : InsertFrame} (inside : f.Inside cfg) :
    (insert cfg tid m f).2.Holds (·.Inside cfg) := by
  obtain ⟨first,second,here⟩ := inside
  cases pc : f.pc with
  | allocate | shuffle =>
    simp only [insert,pc]
    exact ⟨first,second,by simp [pc]⟩
  | probe i side foundEmpty =>
    simp only [pc] at here
    simp only [insert,pc]
    split
    · exact ⟨first,second,here⟩
    · exact nextProbe_inside first second here _ _
  | store i side ptr1 =>
    simp only [pc] at here
    simp only [insert,pc]
    cases createPointer (getCounter ptr1) f.newEntry false with
    | none => exact ⟨first,second,by simpa [pc] using here⟩
    | some word =>
      by_cases found : m.hashTable (f.bucket side) i = ptr1
      · simp only [Memory.compareAndSwap,found,if_true]
        trivial
      · simp only [Memory.compareAndSwap,found,if_false]
        exact nextProbe_inside first second here _ _
  | kick rest frame =>
    simp only [pc] at here
    have inner : (relocate cfg tid m frame).2.Holds (·.Inside cfg) := relocate_inside here.2
    simp only [insert,pc]
    cases flow : relocate cfg tid m frame with | mk next result =>
    rw [flow] at inner
    cases result with
    | running after => exact ⟨first,second,here.1,inner⟩
    | returned result =>
      cases result with
      | true => exact ⟨first,second,by simp [InsertFrame.goto,numItemsPerEntry]⟩
      | false => exact nextKick_inside first second here.1

theorem advance_inside (inside : before.Inside cfg) : (advance cfg tid m before).2.Inside cfg := by
  cases before with
  | idle => trivial
  | insert frame =>
    have inner : (insert cfg tid m frame).2.Holds (·.Inside cfg) := insert_inside inside
    simp only [advance]
    cases flow : insert cfg tid m frame with | mk next result =>
    rw [flow] at inner
    cases result with
    | running after => exact inner
    | returned => trivial
  | find key frame =>
    simp only [advance]
    cases flow : find cfg tid m frame with | mk next result =>
    cases result with
    | running after => exact find_inside inside (by rw [flow])
    | returned => trivial
  | remove frame =>
    obtain ⟨first,second,search⟩ := inside
    cases pc : frame.pc with
    | find inner =>
      simp only [advance,remove,pc]
      cases flow : find cfg tid m inner with | mk next result =>
      cases result with
      | running after =>
        refine ⟨first,second,?_⟩
        rintro _ ⟨⟩
        exact find_inside (search inner (by simp [RemoveFrame.find?,pc])) (by rw [flow])
      | returned result =>
        by_cases missing : result.1 = numItemsPerEntry * 2
        · simp only [missing,if_true]
          trivial
        · simp only [missing,if_false]
          exact ⟨first,second,by rintro _ ⟨⟩⟩
    | cas location ptr1 =>
      simp only [advance,remove,pc]
      cases createPointer (getCounter ptr1) 0 false with
      | none => exact ⟨first,second,search⟩
      | some word =>
        by_cases found :
            m.hashTable (frame.hashVal location) (location % numItemsPerEntry) = ptr1
        · simp only [Memory.compareAndSwap,found,if_true]
          trivial
        · simp only [Memory.compareAndSwap,found,if_false]
          refine ⟨first,second,?_⟩
          rintro _ ⟨⟩
          exact enter_inside cfg frame.key

theorem threadStep_inside (inside : before.Inside cfg)
    (stepped : threadStep cfg tid m before action = some (next,after)) : after.Inside cfg := by
  cases threadStep_move stepped with
  | invoke call =>
    cases call with
    | insert key => exact ⟨Nat.mod_lt _ cfg.positive,getNextHashIndex_lt cfg.positive _ _,trivial⟩
    | find key => exact enter_inside cfg key
    | remove key =>
      refine ⟨Nat.mod_lt _ cfg.positive,getNextHashIndex_lt cfg.positive _ _,?_⟩
      rintro _ ⟨⟩
      exact enter_inside cfg key
  | allocate => exact ⟨inside.1,inside.2.1,by simp [numItemsPerEntry]⟩
  | shuffle frame kickSlot rest kicks permuted =>
    have small (slot : Nat) (member : slot ∈ kickSlot :: rest) : slot < numItemsPerEntry :=
      List.mem_range.mp (permuted.subset member)
    have going : (frame.nextKick (kickSlot :: rest)).Holds (·.Inside cfg) :=
      nextKick_inside inside.1 inside.2.1 small
    exact going
  | insert | find | remove => exact advance_inside inside

theorem help_inside {before : Control} (inside : before.Inside cfg) (call : before.help? = some f) :
    cfg.Slot f.tableIdx f.slotIdx := by
  cases before with
  | idle => contradiction
  | insert frame =>
    cases pc : frame.pc with
    | kick rest inner =>
      have here : inner.Inside cfg := by
        have := inside.2.2
        simp only [pc] at this
        exact this.2
      exact here.2.2 f (by simpa [Control.help?,InsertFrame.relocate?,pc] using call)
    | _ => simp [Control.help?,InsertFrame.relocate?,pc] at call
  | find key frame => exact inside.2.2.2 f call
  | remove frame =>
    obtain ⟨search,site,nested⟩ := Option.bind_eq_some_iff.mp call
    exact (inside.2.2 search site).2.2.2 f nested

/-- Slots outside the table keep their initial word. -/
structure InRange (cfg : Config) (s : System) : Prop where
  threads : ∀ tid, (s.control tid).Inside cfg
  slots : ∀ b i, s.memory.hashTable b i ≠ 0 → cfg.Slot b i

theorem inRange_initial (cfg : Config) : InRange cfg System.initial :=
  ⟨fun _ => trivial,by simp [System.initial,Memory.initial]⟩

theorem slot_in_range (formed : Formed cfg s) (inRange : InRange cfg s) (moved : StepBy cfg tid s t)
    (present : t.memory.hashTable b i ≠ 0) : cfg.Slot b i := by
  have inside := inRange.threads tid
  cases threadStep_slot (stepBy_thread moved) b i with
  | kept same => exact inRange.slots b i (same ▸ present)
  | @store frame second ptr1 site pc bucket =>
    rw [site] at inside
    obtain ⟨first,alternative,here⟩ := inside
    simp only [pc] at here
    refine ⟨?_,here⟩
    rw [bucket]
    cases second
    · exact first
    · exact alternative
  | @take frame location ptr1 site pc bucket slot =>
    rw [site] at inside
    refine ⟨?_,by rw [slot]; exact Nat.mod_lt _ (by simp [numItemsPerEntry])⟩
    rw [bucket,RemoveFrame.hashVal]
    split
    · exact inside.1
    · exact inside.2.1
  | mark call pc bucket slot => rw [bucket,slot]; exact help_inside inside call
  | clear call pc bucket slot => rw [bucket,slot]; exact help_inside inside call
  | @copy f ptr1 ptr2 call pc slot =>
    have shape := formed.help tid f call
    simp only [HelpFrame.Formed,pc] at shape
    rw [slot,shape.2.1]
    exact ⟨getNextHashIndex_lt cfg.positive _ _,(help_inside inside call).2⟩
  | @complete f ptr1 call pc slot =>
    have shape := formed.help tid f call
    simp only [HelpFrame.Formed,pc] at shape
    rw [slot,shape.2]
    exact ⟨getNextHashIndex_lt cfg.positive _ _,(help_inside inside call).2⟩
  | @rollBack f ptr1 call pc slot =>
    have shape := formed.help tid f call
    simp only [HelpFrame.Formed,pc] at shape
    rw [slot,shape.2]
    exact ⟨getNextHashIndex_lt cfg.positive _ _,(help_inside inside call).2⟩

theorem inRange_step (formed : Formed cfg s) (inRange : InRange cfg s)
    (moved : StepBy cfg tid s t) : InRange cfg t := by
  refine ⟨?_,fun _ _ => slot_in_range formed inRange moved⟩
  intro other
  by_cases same : other = tid
  · subst other
    obtain ⟨-,⟨action,raw⟩,-⟩ := stepBy_cases moved
    exact threadStep_inside (inRange.threads tid) raw
  · rw [stepBy_other moved same]
    exact inRange.threads other

theorem reachable_inRange (reachable : Reachable cfg s) : InRange cfg s :=
  (Transition.run_invariant (fun s => Formed cfg s ∧ InRange cfg s)
    (fun _ _ ⟨formed,inRange⟩ ⟨_,_,moved⟩ =>
      ⟨formed_step formed moved,inRange_step formed inRange moved⟩)
    ⟨formed_initial cfg,inRange_initial cfg⟩ reachable).2

theorem holder_slot (reachable : Reachable cfg s)
    (present : getRealPointer (s.memory.hashTable b i) ≠ 0) : cfg.Slot b i := by
  refine (reachable_inRange reachable).slots b i ?_
  intro empty
  rw [empty] at present
  exact present rfl

end CuckooFilter.LockFree
