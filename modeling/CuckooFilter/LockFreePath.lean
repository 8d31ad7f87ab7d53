import CuckooFilter.LockFreeRange
import CuckooFilter.LockFreeCompletion

/-! The path of a relocation. Path discovery reads one slot after another and writes down the
buckets of the occupied ones; the traversal moves the entry of the last bucket. A restart
clears what was written down and reads on from the bucket where discovery stopped. -/
namespace CuckooFilter.LockFree

variable {cfg : Config} {tid : Nat} {m next : Memory} {s t : System} {f g : RelocateFrame}

def Control.relocate? : Control → Option RelocateFrame
  | .insert frame => frame.relocate?
  | _ => none

theorem insert_relocate {frame after : InsertFrame}
    (flow : (insert cfg tid m frame).2 = .running after) (inside : after.relocate? = some g) :
    (∃ f, frame.relocate? = some f ∧ (relocate cfg tid m f).2 = .running g) ∨
      (∃ f, frame.relocate? = some f ∧ ∃ result, (relocate cfg tid m f).2 = .returned result) ∧
        ∃ b i, g = .enter b i := by
  cases pc : frame.pc with
  | allocate | shuffle =>
    simp only [insert,pc] at flow
    cases flow
    simp [InsertFrame.relocate?,pc] at inside
  | probe i second foundEmpty =>
    simp only [insert,pc] at flow
    split at flow
    · cases flow
      cases inside
    · cases flow
      unfold InsertFrame.nextProbe at inside
      repeat' split at inside
      all_goals cases inside
  | store i second ptr1 =>
    simp only [insert,pc] at flow
    split at flow
    · cases flow
      simp [InsertFrame.relocate?,pc] at inside
    · split at flow
      · cases flow
      · cases flow
        unfold InsertFrame.nextProbe at inside
        repeat' split at inside
        all_goals cases inside
  | kick rest f =>
    have site : frame.relocate? = some f := by simp [InsertFrame.relocate?,pc]
    simp only [insert,pc] at flow
    cases out : relocate cfg tid m f with | mk next result =>
    rw [out] at flow
    cases result with
    | running here =>
      cases flow
      cases inside
      exact .inl ⟨f,site,by rw [out]⟩
    | returned result =>
      cases result with
      | true =>
        cases flow
        cases inside
      | false =>
        refine .inr ⟨⟨f,site,false,by rw [out]⟩,?_⟩
        cases rest with
        | nil => cases flow
        | cons kickSlot rest =>
          cases flow
          cases inside
          exact ⟨_,_,rfl⟩

/-- A step inside a call of `relocate` is one of the call; the first step is the entry. -/
theorem step_relocate (moved : StepBy cfg tid s t) (inside : (t.control tid).relocate? = some g) :
    (∃ f, (s.control tid).relocate? = some f ∧ (relocate cfg tid s.memory f).2 = .running g) ∨
      ((s.control tid).relocate? = none ∨ ∃ f, (s.control tid).relocate? = some f ∧
        ∃ result, (relocate cfg tid s.memory f).2 = .returned result) ∧ ∃ b i, g = .enter b i := by
  obtain ⟨-,⟨action,stepped⟩,-⟩ := stepBy_cases moved
  generalize t.control tid = after at stepped inside
  generalize t.memory = last at stepped
  generalize s.control tid = before at stepped
  cases threadStep_move stepped with
  | invoke call => cases call <;> cases inside
  | allocate => cases inside
  | shuffle frame kickSlot rest kicks =>
    have outside : (Control.insert frame).relocate? = none := by
      simp [Control.relocate?,InsertFrame.relocate?,kicks]
    cases inside
    exact .inr ⟨.inl outside,_,_,rfl⟩
  | insert frame =>
    simp only [advance] at inside
    cases out : insert cfg tid s.memory frame with | mk middle flow =>
    rw [out] at inside
    cases flow with
    | running going =>
      have entered := insert_relocate (by rw [out]) inside
      rcases entered with same | ⟨ended,first⟩
      · exact .inl same
      · exact .inr ⟨.inr ended,first⟩
    | returned result => cases inside
  | find key frame =>
    simp only [advance] at inside
    cases out : find cfg tid s.memory frame with | mk middle flow =>
    rw [out] at inside
    cases flow <;> cases inside
  | remove frame =>
    simp only [advance] at inside
    cases out : remove cfg tid s.memory frame with | mk middle flow =>
    rw [out] at inside
    cases flow <;> cases inside

structure Visit where
  bucket : Nat
  slot : Nat
  word : TablePointer
  deriving DecidableEq, Repr

def RelocateFrame.visits (m : Memory) (f : RelocateFrame) : List Visit :=
  match f.pc with
  | .discover _ | .discoverReread _ => [⟨f.tableIdx,f.slotIdx,m.hashTable f.tableIdx f.slotIdx⟩]
  | _ => []

/-- What path discovery has read so far in the call of `relocate` the thread is inside. -/
def visited (cfg : Config) (tid : Nat) (m : Memory) (control : Control) (visits : List Visit) :
    List Visit :=
  match control.relocate? with
  | none => []
  | some f =>
    match (relocate cfg tid m f).2 with
    | .running _ => f.visits m ++ visits
    | .returned _ => []

/-- Every thread's reads stand beside the machine; no step reads them. -/
structure Traced where
  system : System
  visits : Nat → List Visit

def Traced.initial : Traced := ⟨System.initial,fun _ => []⟩

def Traced.note (cfg : Config) (tid : Nat) (x : Traced) (t : System) : Traced :=
  ⟨t,fun other =>
    if other = tid then visited cfg tid x.system.memory (x.system.control tid) (x.visits tid)
    else x.visits other⟩

def TracedRun (cfg : Config) (condition : Nat → System → Prop) : Traced → Traced → Prop :=
  Relation.ReflTransGen fun x y => ∃ tid, condition tid x.system ∧
    ∃ t, StepBy cfg tid x.system t ∧ y = x.note cfg tid t

/-- Every run has its trace. -/
theorem Run.traced {condition : Nat → System → Prop} (run : Run cfg condition s t)
    (visits : Nat → List Visit) :
    ∃ last, TracedRun cfg condition ⟨s,visits⟩ ⟨t,last⟩ := by
  induction run with
  | refl => exact ⟨visits,.refl⟩
  | tail _ last ih =>
    obtain ⟨middle,before⟩ := ih
    obtain ⟨tid,meets,moved⟩ := last
    exact ⟨_,.tail before ⟨tid,meets,_,moved,rfl⟩⟩

theorem TracedRun.run {condition : Nat → System → Prop} (run : TracedRun cfg condition x y) :
    Run cfg condition x.system y.system := by
  induction run with
  | refl => exact .refl
  | tail _ last ih =>
    obtain ⟨tid,meets,t,moved,rfl⟩ := last
    exact .tail ih ⟨tid,meets,moved⟩

def FoundOccupied (visits : List Visit) (bucket slot : Nat) : Prop :=
  ∃ word, ⟨bucket,slot,word⟩ ∈ visits ∧ getRealPointer word ≠ 0

theorem FoundOccupied.more {visits : List Visit} (found : FoundOccupied visits b i) (reads : List Visit) :
    FoundOccupied (reads ++ visits) b i := by
  obtain ⟨word,member,occupied⟩ := found
  exact ⟨word,List.mem_append_right _ member,occupied⟩

/-- The sources of calls of `help_relocate` as initiator are on the path of their call of
`relocate`. -/
def Traced.OnPath (x : Traced) : Prop :=
  ∀ tid f help, (x.system.control tid).relocate? = some f → f.help? = some help →
    help.initiator = true → FoundOccupied (x.visits tid) help.tableIdx f.slotIdx

/-- Discovery at a level: the levels since the last restart are written down. -/
def RelocateFrame.Discovering (f : RelocateFrame) (visits : List Visit) (depth : Int) : Prop :=
  0 ≤ f.startLevel ∧ f.startLevel ≤ depth ∧ depth < numMaxKicks ∧
    ∀ level, f.startLevel ≤ level → level < depth → FoundOccupied visits (f.sourceIdx level) f.slotIdx

/-- Traversal of a path that ends at a level written down. -/
def RelocateFrame.Traversing (f : RelocateFrame) (visits : List Visit) (depth i : Int) : Prop :=
  0 ≤ i ∧ i ≤ depth ∧ depth + 1 < numMaxKicks ∧ FoundOccupied visits (f.sourceIdx depth) f.slotIdx

def RelocateFrame.Routed (f : RelocateFrame) (visits : List Visit) : Prop :=
  f.route.length = numMaxKicks ∧
  match f.pc with
  | .discover depth | .discoverReread depth => f.Discovering visits depth
  | .discoverHelp depth help => f.Discovering visits depth ∧ help.initiator = false
  | .discoverDeref depth _ => f.Discovering visits depth ∧ FoundOccupied visits f.tableIdx f.slotIdx
  | .traverse depth i | .traverseReread depth i | .traverseDeref depth i _ | .traverseDest depth i _ =>
    f.Traversing visits depth i
  | .traverseHelp depth i help => f.Traversing visits depth i ∧ help.initiator = false
  | .traverseMove depth i help => f.Traversing visits depth i ∧ help.tableIdx = f.sourceIdx depth

/-- A restarted discovery finds the first slot it reads empty: the traversal goes to a level that
the restart has cleared. -/
def RelocateFrame.EndsCleared (m : Memory) (f : RelocateFrame) : Prop :=
  0 < f.startLevel ∧ (f.pc = .discover f.startLevel ∨ f.pc = .discoverReread f.startLevel) ∧
    getMarked (m.hashTable f.tableIdx f.slotIdx) = false ∧
    getRealPointer (m.hashTable f.tableIdx f.slotIdx) = 0

instance (m : Memory) (f : RelocateFrame) : Decidable (f.EndsCleared m) :=
  inferInstanceAs (Decidable (_ ∧ _ ∧ _ ∧ _))

theorem pathDiscovery_routed (f : RelocateFrame) (visits : List Visit) {level : Int}
    (from_start : 0 ≤ level) (short : level < numMaxKicks) : (f.pathDiscovery level).Routed visits := by
  refine ⟨List.length_replicate,from_start,Int.le_refl _,short,?_⟩
  intro later low high
  exact absurd low (Int.not_le.mpr high)

theorem enter_routed (b i : Nat) (visits : List Visit) : (RelocateFrame.enter b i).Routed visits :=
  pathDiscovery_routed _ visits (Int.le_refl _) (by decide)

theorem found_routed {visits : List Visit} (length : f.route.length = numMaxKicks)
    (discovering : f.Discovering visits depth) (more : depth - 1 ≥ 0)
    (lasting : ¬(0 < f.startLevel ∧ depth = f.startLevel)) :
    (f.goto (.traverse (depth - 1) (depth - 1))).Routed visits := by
  obtain ⟨start,from_start,short,levels⟩ := discovering
  have own : f.startLevel ≤ depth - 1 := by
    by_contra shallow
    exact lasting ⟨by omega,by omega⟩
  exact ⟨length,more,Int.le_refl _,by omega,levels _ own (by omega)⟩

theorem written_routed {visits : List Visit} (length : f.route.length = numMaxKicks)
    (discovering : f.Discovering visits depth) (found : FoundOccupied visits f.tableIdx f.slotIdx)
    (more : depth + 1 < numMaxKicks) (next : Nat) :
    RelocateFrame.Routed { f with
      route := f.route.set depth.toNat f.tableIdx
      tableIdx := next
      pc := .discover (depth + 1) } visits := by
  obtain ⟨start,from_start,short,levels⟩ := discovering
  have kept : (f.route.set depth.toNat f.tableIdx).length = numMaxKicks := by simpa using length
  refine ⟨kept,start,?_,more,?_⟩
  · show f.startLevel ≤ depth + 1
    omega
  · intro level low high
    have high : level < depth + 1 := high
    have low : f.startLevel ≤ level := low
    show FoundOccupied _ ((f.route.set depth.toNat f.tableIdx).getD level.toNat 0) f.slotIdx
    by_cases last : level = depth
    · rw [last,List.getD_eq_getElem?_getD,List.getElem?_set_self (by omega)]
      exact found
    · rw [List.getD_eq_getElem?_getD,List.getElem?_set_ne (by omega),
        ← List.getD_eq_getElem?_getD]
      exact levels level low (by omega)

theorem discovering_more {visits : List Visit} (discovering : f.Discovering visits depth)
    (reads : List Visit) : f.Discovering (reads ++ visits) depth := by
  obtain ⟨start,from_start,short,levels⟩ := discovering
  exact ⟨start,from_start,short,fun level low high => (levels level low high).more reads⟩

theorem traversing_more {visits : List Visit} (traversing : f.Traversing visits depth i)
    (reads : List Visit) : f.Traversing (reads ++ visits) depth i := by
  obtain ⟨lower,upper,short,source⟩ := traversing
  exact ⟨lower,upper,short,source.more reads⟩

theorem routed_more {visits : List Visit} (routed : f.Routed visits) (reads : List Visit) :
    f.Routed (reads ++ visits) := by
  obtain ⟨length,here⟩ := routed
  refine ⟨length,?_⟩
  cases pc : f.pc with
  | discover depth | discoverReread depth =>
    simp only [pc] at here ⊢
    exact discovering_more here reads
  | discoverHelp depth frame =>
    simp only [pc] at here ⊢
    exact ⟨discovering_more here.1 reads,here.2⟩
  | discoverDeref depth ptr1 =>
    simp only [pc] at here ⊢
    exact ⟨discovering_more here.1 reads,here.2.more reads⟩
  | traverse depth i | traverseReread depth i | traverseDeref depth i sourcePtr
  | traverseDest depth i destIdx =>
    simp only [pc] at here ⊢
    exact traversing_more here reads
  | traverseHelp depth i frame | traverseMove depth i frame =>
    simp only [pc] at here ⊢
    exact ⟨traversing_more here.1 reads,here.2⟩

theorem routed_discovering {visits : List Visit} (routed : f.Routed visits)
    (entry : f.pc = .discover depth ∨ f.pc = .discoverReread depth) :
    f.Discovering visits depth := by
  obtain ⟨-,here⟩ := routed
  rcases entry with pc | pc
  · simpa only [pc] using here
  · simpa only [pc] using here

theorem routed_traversing {visits : List Visit} (routed : f.Routed visits)
    (entry : f.pc = .traverse depth i ∨ f.pc = .traverseReread depth i) :
    f.Traversing visits depth i := by
  obtain ⟨-,here⟩ := routed
  rcases entry with pc | pc
  · simpa only [pc] using here
  · simpa only [pc] using here

theorem relocate_routed {visits : List Visit} (routed : f.Routed visits)
    (lasting : ¬f.EndsCleared m) :
    (relocate cfg tid m f).2.Holds (·.Routed (f.visits m ++ visits)) := by
  refine Flow.holds_of_running fun g flow => ?_
  have whole := routed_more routed (f.visits m)
  have ⟨length,here⟩ := whole
  cases relocate_running flow with
  | discoverMarked entry =>
    have discovering := routed_discovering whole entry
    exact ⟨length,discovering,rfl⟩
  | occupied entry unmarked present =>
    have discovering := routed_discovering whole entry
    have visit : ⟨f.tableIdx,f.slotIdx,m.hashTable f.tableIdx f.slotIdx⟩ ∈ f.visits m := by
      rcases entry with pc | pc
      · simp [RelocateFrame.visits,pc]
      · simp [RelocateFrame.visits,pc]
    exact ⟨length,discovering,_,List.mem_append_left _ visit,present⟩
  | found entry unmarked empty more =>
    refine found_routed length (routed_discovering whole entry) more ?_
    rintro ⟨restarted,rfl⟩
    exact lasting ⟨restarted,entry,unmarked,empty⟩
  | discoverHelping pc stepped =>
    simp only [pc] at here
    exact ⟨length,here.1,(helpStep_site stepped).2.2.trans here.2⟩
  | discoverHelped pc =>
    simp only [pc] at here
    exact ⟨length,here.1⟩
  | deeper pc more =>
    simp only [pc] at here
    exact written_routed length here.1 here.2 more _
  | traverseMarked pc =>
    simp only [pc] at here
    exact ⟨length,here,rfl⟩
  | traverseHelping pc stepped =>
    simp only [pc] at here
    exact ⟨length,here.1,(helpStep_site stepped).2.2.trans here.2⟩
  | traverseHelped pc =>
    simp only [pc] at here
    exact ⟨length,here.1⟩
  | source entry =>
    have traversing := routed_traversing whole entry
    exact ⟨length,traversing⟩
  | skip entry empty more =>
    obtain ⟨-,upper,short,source⟩ := routed_traversing whole entry
    exact ⟨length,more,by omega,short,source⟩
  | follow pc =>
    simp only [pc] at here
    exact ⟨length,here⟩
  | restart pc =>
    simp only [pc] at here
    obtain ⟨lower,upper,short,-⟩ := here
    exact pathDiscovery_routed f _ (by omega) (by omega)
  | move pc =>
    simp only [pc] at here
    exact ⟨length,here,rfl⟩
  | moving pc stepped =>
    simp only [pc] at here
    exact ⟨length,here.1,(helpStep_site stepped).1.trans here.2⟩
  | moved pc more =>
    simp only [pc] at here
    obtain ⟨⟨lower,upper,short,source⟩,-⟩ := here
    exact ⟨length,more,by omega,short,source⟩

theorem visited_running {control : Control} (inside : control.relocate? = some f)
    (flow : (relocate cfg tid m f).2 = .running g) (visits : List Visit) :
    visited cfg tid m control visits = f.visits m ++ visits := by
  simp only [visited,inside,flow]

theorem traced_step {x : Traced}
    (routed : ∀ f, (x.system.control tid).relocate? = some f → f.Routed (x.visits tid))
    (lasting : ∀ f ∈ (x.system.control tid).relocate?, ¬f.EndsCleared x.system.memory)
    (moved : StepBy cfg tid x.system t) (inside : (t.control tid).relocate? = some g) :
    g.Routed ((x.note cfg tid t).visits tid) := by
  have noted : (x.note cfg tid t).visits tid =
      visited cfg tid x.system.memory (x.system.control tid) (x.visits tid) := if_pos rfl
  rw [noted]
  rcases step_relocate moved inside with ⟨f,before,flow⟩ | ⟨-,b,i,rfl⟩
  · have kept : (relocate cfg tid x.system.memory f).2.Holds _ :=
      relocate_routed (routed f before) (lasting f before)
    rw [visited_running before flow]
    rwa [flow] at kept
  · exact enter_routed b i _

/-- In a run in which no restarted discovery ends where it starts, `relocate` moves only
entries on its own path. -/
theorem traced_on_path (run : TracedRun cfg
      (fun tid s => ∀ f ∈ (s.control tid).relocate?, ¬f.EndsCleared s.memory) Traced.initial x) :
    x.OnPath := by
  have routed : ∀ tid f, (x.system.control tid).relocate? = some f → f.Routed (x.visits tid) := by
    refine Transition.run_invariant (fun x => ∀ tid f,
      (x.system.control tid).relocate? = some f → f.Routed (x.visits tid)) ?_ ?_ run
    · rintro x y routed ⟨tid,lasting,t,moved,rfl⟩ other g inside
      by_cases same : other = tid
      · subst same
        exact traced_step (routed other) lasting moved inside
      · have away : (x.note cfg tid t).visits other = x.visits other := if_neg same
        rw [away]
        apply routed other g
        rwa [← stepBy_other moved same]
    · intro tid f inside
      cases inside
  intro tid f help inside call initiator
  obtain ⟨-,here⟩ := routed tid f inside
  cases pc : f.pc with
  | traverseMove depth i frame =>
    simp only [pc] at here
    obtain ⟨⟨-,-,-,source⟩,same⟩ := here
    obtain rfl : frame = help := by simpa [RelocateFrame.help?,pc] using call
    rw [same]
    exact source
  | discoverHelp | traverseHelp =>
    simp only [pc] at here
    simp only [RelocateFrame.help?,pc,Option.some.injEq] at call
    rw [← call,here.2] at initiator
    cases initiator
  | _ => simp [RelocateFrame.help?,pc] at call

/-- A schedule with its trace, as far as every step meets the condition. -/
def executeTraced (cfg : Config) (condition : Nat → System → Prop)
    [∀ tid s, Decidable (condition tid s)] : List (Nat × Action) → Traced → Option Traced
  | [],x => some x
  | (tid,action) :: schedule,x =>
    if condition tid x.system then
      (step cfg x.system tid action).bind fun t =>
        executeTraced cfg condition schedule (x.note cfg tid t)
    else none

theorem executeTraced_run {condition : Nat → System → Prop} [∀ tid s, Decidable (condition tid s)]
    (schedule : List (Nat × Action)) (x y : Traced)
    (executed : executeTraced cfg condition schedule x = some y) : TracedRun cfg condition x y := by
  induction schedule generalizing x with
  | nil =>
    cases executed
    exact .refl
  | cons head rest ih =>
    obtain ⟨tid,action⟩ := head
    simp only [executeTraced] at executed
    split at executed
    · obtain ⟨t,moved,later⟩ := Option.bind_eq_some_iff.mp executed
      exact .head ⟨tid,by assumption,t,⟨action,moved⟩,rfl⟩ (ih _ later)
    · contradiction

def endTrace (cfg : Config) (condition : Nat → System → Prop) [∀ tid s, Decidable (condition tid s)]
    (schedule : List (Nat × Action)) : Traced :=
  (executeTraced cfg condition schedule Traced.initial).getD Traced.initial

theorem endTrace_run {condition : Nat → System → Prop} [∀ tid s, Decidable (condition tid s)]
    (schedule : List (Nat × Action))
    (possible : (executeTraced cfg condition schedule Traced.initial).isSome = true) :
    TracedRun cfg condition Traced.initial (endTrace cfg condition schedule) := by
  obtain ⟨x,executed⟩ := Option.isSome_iff_exists.mp possible
  rw [endTrace,executed]
  exact executeTraced_run schedule _ x executed

/-- Bucket 1 is full; its slot 0 has an `a`, which goes to bucket 2. Thread 1 inserts a `c`
and kicks that slot; it has found slot 0 of bucket 2 empty and is about to read it again. -/
def kickingSchedule : List (Nat × Action) :=
  inserts 0 keyF 2 2 ++ inserts 0 keyA 4 3 ++ inserts 0 keyC 6 4 ++ inserts 0 keyC 8 6 ++
    inserts 0 keyC 10 8 ++ [(0,.invoke (.remove keyF))] ++ runs 0 3 ++
    inserts 1 keyC 14 8 ++ [(1,.shuffle [0,1,2,3])] ++ runs 1 5

/-- An `f` comes into bucket 2; discovery starts again there and goes on to bucket 0. -/
def longerTrace : Traced :=
  endTrace fourBuckets (fun tid s => ∀ f ∈ (s.control tid).relocate?, ¬f.EndsCleared s.memory)
    (kickingSchedule ++ inserts 0 keyF 16 2 ++ runs 1 7)

theorem longer_path_followed : FoundOccupied (longerTrace.visits 1) 2 0 := by
  have calls : ((longerTrace.system.control 1).relocate?.bind RelocateFrame.help?) =
      some (.enter 2 0 true) := by decide +kernel
  have slots : ((longerTrace.system.control 1).relocate?.map RelocateFrame.slotIdx) = some 0 := by
    decide +kernel
  obtain ⟨f,inside,call⟩ := Option.bind_eq_some_iff.mp calls
  have run : TracedRun fourBuckets
      (fun tid s => ∀ f ∈ (s.control tid).relocate?, ¬f.EndsCleared s.memory)
      Traced.initial longerTrace := endTrace_run _ (by decide +kernel)
  have found := traced_on_path run 1 f _ inside call rfl
  rw [inside] at slots
  rwa [Option.some.inj slots] at found

/-- The `f` is removed before discovery reads its slot again, and the traversal goes to
bucket 0, which has an empty key's fingerprint and is not on the path. -/
def clearedTrace : Traced :=
  endTrace fourBuckets (fun _ _ => True)
    (kickingSchedule ++ inserts 0 [] 18 2 ++ inserts 0 keyF 16 2 ++ runs 1 1 ++
      [(0,.invoke (.remove keyF))] ++ runs 0 3 ++ runs 1 4)

theorem moves_off_path : ¬∀ (cfg : Config) (x : Traced),
    TracedRun cfg (fun _ _ => True) Traced.initial x → x.OnPath := by
  intro follows
  have calls : ((clearedTrace.system.control 1).relocate?.bind RelocateFrame.help?) =
      some (.enter 0 0 true) := by decide +kernel
  obtain ⟨f,inside,call⟩ := Option.bind_eq_some_iff.mp calls
  have run : TracedRun fourBuckets (fun _ _ => True) Traced.initial clearedTrace :=
    endTrace_run _ (by decide +kernel)
  obtain ⟨word,member,-⟩ := follows fourBuckets clearedTrace run 1 f _ inside call rfl
  have away : ∀ visit ∈ clearedTrace.visits 1, visit.bucket ≠ 0 := by decide +kernel
  exact away _ member rfl

end CuckooFilter.LockFree
