import CuckooFilter.LockFreeOwnership
import CuckooFilter.LockFreeExact

/-! Room for every insertion. Alone, an insertion answers false exactly when it begins without
room, so a filter of one thread owns its entries exactly when all of its insertions have begun
with room. -/
namespace CuckooFilter.LockFree

variable {cfg : Config} {tid : Nat} {s t : System} {m : Memory}

/-- An insertion that is about to begin has room. -/
def System.Roomy (cfg : Config) (tid : Nat) (s : System) : Prop :=
  ∀ f, s.control tid = .insert f → f.pc = .allocate → Insertable cfg s.memory f.hash1 f.hash2

/-- A run of the one thread in which every insertion begins with room. -/
def RoomyRun (cfg : Config) (tid : Nat) : System → System → Prop :=
  Run cfg fun mover u => mover = tid ∧ u.Roomy cfg tid

theorem RoomyRun.single (run : RoomyRun cfg tid s t) : Relation.ReflTransGen (StepBy cfg tid) s t := by
  refine Relation.ReflTransGen.mono ?_ _ _ run
  rintro s t ⟨mover,⟨rfl,-⟩,moved⟩
  exact moved

/-- Outside insertions, at the beginning of one, or inside one since the memory it began with. -/
inductive Stage where
  | outside
  | begun (key : Bytes)
  | within (key : Bytes) (start : Memory)

def Stage.At (cfg : Config) (tid : Nat) (s : System) : Stage → Prop
  | .outside => ∀ f, s.control tid ≠ .insert f
  | .begun key => s.control tid = .insert (.enter cfg key) ∧ s.memory.Clean cfg
  | .within key start => (∃ f, s.control tid = .insert f ∧ f.pc ≠ .allocate) ∧
      Alone cfg tid (Answers cfg tid key start) s

def Config.Room (cfg : Config) (m : Memory) (key : Bytes) : Prop :=
  Insertable cfg m (InsertFrame.enter cfg key).hash1 (InsertFrame.enter cfg key).hash2

/-- How a step goes from one stage to the next. -/
inductive Follows (cfg : Config) (s t : System) : Stage → Stage → Prop where
  | rest (same : t.memory.refusals = s.memory.refusals) : Follows cfg s t .outside .outside
  | begin (same : t.memory.refusals = s.memory.refusals) : Follows cfg s t .outside (.begun key)
  | enter : Follows cfg s t (.begun key) (.within key s.memory)
  | stay : Follows cfg s t (.within key start) (.within key start)
  | answer (refused : t.memory.refusals = [] ↔ start.refusals = [] ∧ cfg.Room start key) :
      Follows cfg s t (.within key start) .outside

theorem Inserted.refusals {n start : Memory} (inserted : Inserted cfg tid key start answer n) :
    n.refusals = [] ↔ start.refusals = [] ∧ cfg.Room start key := by
  have room : answer = true ↔ cfg.Room start key := inserted.room
  rw [Memory.refusals,inserted.returned,← room]
  cases answer with
  | true =>
    have same : refusedKey (tid,.insert key,.truth true) = none := rfl
    rw [List.filterMap_cons_none same,← Memory.refusals]
    simp
  | false =>
    have refused : refusedKey (tid,.insert key,.truth false) = some key := rfl
    rw [List.filterMap_cons_some refused]
    simp

theorem insert_lands {f : InsertFrame} (moved : StepBy cfg tid s t) (site : s.control tid = .insert f)
    (started : f.pc ≠ .allocate) :
    (∃ g, t.control tid = .insert g ∧ g.pc ≠ .allocate) ∨ t.control tid = .idle := by
  obtain ⟨-,⟨action,raw⟩,-⟩ := stepBy_cases moved
  generalize t.control tid = after at raw
  generalize t.memory = last at raw
  rw [site] at raw
  cases threadStep_move raw with
  | allocate _ _ begins => exact absurd begins started
  | shuffle frame kickSlot rest => exact .inl ⟨_,rfl,by simp [InsertFrame.goto]⟩
  | insert frame =>
    simp only [advance]
    cases flow : insert cfg tid s.memory f with | mk next result =>
    cases result with
    | running g => exact .inl ⟨g,rfl,(insert_running started (by rw [flow])).1⟩
    | returned result => exact .inr rfl

theorem outside_lands (moved : StepBy cfg tid s t) (busy : s.control tid ≠ .idle)
    (outside : ∀ f, s.control tid ≠ .insert f) (f : InsertFrame) : t.control tid ≠ .insert f := by
  obtain ⟨-,⟨action,raw⟩,-⟩ := stepBy_cases moved
  generalize t.control tid = after at raw
  generalize t.memory = last at raw
  generalize s.control tid = before at raw busy outside
  cases threadStep_move raw with
  | invoke => exact absurd rfl busy
  | allocate frame | shuffle frame | insert frame => exact absurd rfl (outside frame)
  | find key frame =>
    simp only [advance]
    split <;> simp
  | remove frame =>
    simp only [advance]
    split <;> simp

theorem outside_refusals (moved : StepBy cfg tid s t) (outside : ∀ f, s.control tid ≠ .insert f) :
    t.memory.refusals = s.memory.refusals := by
  obtain ⟨-,⟨action,raw⟩,-⟩ := stepBy_cases moved
  have none : (s.control tid).unstored? = none := by
    cases site : s.control tid with
    | insert f => exact absurd site (outside f)
    | _ => rfl
  cases threadStep_handed raw with
  | kept _ answers | given _ _ _ answers | stored _ _ answers => exact answers
  | refused was =>
    rw [none] at was
    cases was

theorem outside_step (run : Relation.ReflTransGen (StepBy cfg tid) System.initial s)
    (moved : StepBy cfg tid s t) (here : Stage.outside.At cfg tid s) :
    ∃ later : Stage, later.At cfg tid t ∧ Follows cfg s t .outside later := by
  have same := outside_refusals moved here
  by_cases idle : s.control tid = .idle
  · have ledger := (idle_upheld (ledger_upheld cfg tid) (ledger_initial cfg tid) run idle).1
    obtain ⟨call,rfl⟩ := idle_step moved idle
    cases call with
    | insert key =>
      refine ⟨.begun key,⟨put_control s tid _,?_⟩,.begin same⟩
      exact ⟨ledger.clean.unmarked,ledger.clean.single⟩
    | find key | remove key =>
      refine ⟨.outside,?_,.rest same⟩
      intro f site
      rw [put_control] at site
      cases site
  · exact ⟨.outside,outside_lands moved idle here,.rest same⟩

theorem begun_step (reachable : Reachable cfg s) (moved : StepBy cfg tid s t)
    (here : (Stage.begun key).At cfg tid s) :
    ∃ later : Stage, later.At cfg tid t ∧ Follows cfg s t (.begun key) later := by
  obtain ⟨site,clean⟩ := here
  have step : SoloStep cfg tid s t := ⟨by rw [site]; simp,moved⟩
  have entry : s = s.put tid (s.memory,.insert ((InsertFrame.enter cfg key).goto .allocate)) := by
    rw [show (InsertFrame.enter cfg key).goto .allocate = .enter cfg key from rfl,← site,put_self]
  rw [entry] at step
  obtain ⟨live,address,fresh,rfl⟩ := allocate_moves.mp step
  refine ⟨.within key s.memory,⟨⟨_,put_control s tid _,by simp [InsertFrame.goto]⟩,?_⟩,.enter⟩
  exact (allocated_exact s clean fresh (fun b i _ => (reachable_sound reachable).slots b i) key).overflows
    live

theorem within_step (moved : StepBy cfg tid s t) (here : (Stage.within key start).At cfg tid s) :
    ∃ later : Stage, later.At cfg tid t ∧ Follows cfg s t (.within key start) later := by
  obtain ⟨⟨f,site,started⟩,alone⟩ := here
  have busy : s.control tid ≠ .idle := by
    rw [site]
    simp
  have step : SoloStep cfg tid s t := ⟨busy,moved⟩
  have rest : Alone cfg tid (Answers cfg tid key start) t := by
    cases alone with
    | later live all => exact all t step
    | reached answers =>
      rcases answers with ⟨aborted,-⟩ | ⟨idle,-⟩
      · obtain ⟨-,live,-⟩ := soloStep_iff.mp step
        exact absurd (live.symm.trans aborted) Bool.false_ne_true
      · exact absurd idle busy
  rcases insert_lands moved site started with ⟨g,now,going⟩ | idle
  · exact ⟨.within key start,⟨⟨g,now,going⟩,rest⟩,.stay⟩
  · refine ⟨.outside,?_,.answer ?_⟩
    · intro h site
      rw [idle] at site
      cases site
    · cases rest with
      | later live =>
        obtain ⟨u,awake,-⟩ := live
        exact absurd idle awake
      | reached answers =>
        rcases answers with ⟨aborted,-⟩ | ⟨-,answer,inserted⟩
        · exact absurd idle (solo_aborts step aborted)
        · exact inserted.refusals

theorem stage_step (run : Relation.ReflTransGen (StepBy cfg tid) System.initial s)
    (moved : StepBy cfg tid s t) {stage : Stage} (here : stage.At cfg tid s) :
    ∃ later : Stage, later.At cfg tid t ∧ Follows cfg s t stage later := by
  cases stage with
  | outside => exact outside_step run moved here
  | begun key => exact begun_step (single_reachable run) moved here
  | within key start => exact within_step moved here

/-- Nothing has been refused, and the running insertion will not be. -/
def Stage.Clear (cfg : Config) (s : System) : Stage → Prop
  | .outside | .begun _ => s.memory.refusals = []
  | .within key start => start.refusals = [] ∧ cfg.Room start key

theorem started_roomy {f : InsertFrame} (site : s.control tid = .insert f)
    (started : f.pc ≠ .allocate) : s.Roomy cfg tid := by
  intro g here begins
  rw [site] at here
  cases here
  exact absurd begins started

theorem follows_clear {stage later : Stage} (here : stage.At cfg tid s)
    (follows : Follows cfg s t stage later) :
    later.Clear cfg t ↔ stage.Clear cfg s ∧ s.Roomy cfg tid := by
  cases follows with
  | rest same | begin same =>
    have roomy : s.Roomy cfg tid := fun f site => absurd site (here f)
    rw [Stage.Clear,Stage.Clear,same]
    exact (and_iff_left roomy).symm
  | @enter key =>
    have roomy : s.Roomy cfg tid ↔ cfg.Room s.memory key := by
      constructor
      · exact fun roomy => roomy _ here.1 rfl
      · intro room f site _
        rw [here.1] at site
        cases site
        exact room
    rw [roomy]
    exact Iff.rfl
  | stay =>
    obtain ⟨⟨g,site,started⟩,-⟩ := here
    exact (and_iff_left (started_roomy site started)).symm
  | answer refused =>
    obtain ⟨⟨g,site,started⟩,-⟩ := here
    exact refused.trans (and_iff_left (started_roomy site started)).symm

theorem initial_stage : Stage.At cfg tid System.initial .outside := by
  intro f site
  cases site

theorem roomy_clear (run : RoomyRun cfg tid System.initial s) :
    ∃ stage : Stage, stage.At cfg tid s ∧ stage.Clear cfg s := by
  induction run with
  | refl => exact ⟨.outside,initial_stage,rfl⟩
  | @tail s t before last ih =>
    obtain ⟨stage,here,clear⟩ := ih
    obtain ⟨mover,⟨rfl,roomy⟩,moved⟩ := last
    obtain ⟨later,there,follows⟩ := stage_step (RoomyRun.single before) moved here
    exact ⟨later,there,(follows_clear here follows).mpr ⟨clear,roomy⟩⟩

theorem clear_roomy (run : Relation.ReflTransGen (StepBy cfg tid) System.initial s) :
    ∃ stage : Stage, stage.At cfg tid s ∧
      (stage.Clear cfg s → RoomyRun cfg tid System.initial s) := by
  induction run with
  | refl => exact ⟨.outside,initial_stage,fun _ => .refl⟩
  | @tail s t before moved ih =>
    obtain ⟨stage,here,roomy⟩ := ih
    obtain ⟨later,there,follows⟩ := stage_step before moved here
    refine ⟨later,there,fun clear => ?_⟩
    obtain ⟨earlier,room⟩ := (follows_clear here follows).mp clear
    exact .tail (roomy earlier) ⟨tid,⟨rfl,room⟩,moved⟩

theorem idle_outside {stage : Stage} (here : stage.At cfg tid s) (idle : s.control tid = .idle) :
    stage = .outside := by
  cases stage with
  | outside => rfl
  | begun key =>
    rw [Stage.At,idle] at here
    cases here.1
  | within key start =>
    obtain ⟨⟨f,site,-⟩,-⟩ := here
    rw [idle] at site
    cases site

/-- After each completed operation of a single thread every allocated entry is in one slot
or once on the retired list, exactly when every insertion has begun with room. -/
theorem owned_iff_roomy (run : Relation.ReflTransGen (StepBy cfg tid) System.initial s)
    (idle : s.control tid = .idle) :
    Owned cfg tid s.memory ↔ RoomyRun cfg tid System.initial s := by
  rw [owned_iff_unrefused run idle,← unrefused_iff]
  constructor
  · intro unrefused
    obtain ⟨stage,here,roomy⟩ := clear_roomy run
    rw [idle_outside here idle] at roomy
    exact roomy unrefused
  · intro roomy
    obtain ⟨stage,here,clear⟩ := roomy_clear roomy
    rwa [idle_outside here idle] at clear

/-- Room within one hop of the home slots, if the control point is the beginning of an insertion. -/
def Control.RoomNear (cfg : Config) (m : Memory) : Control → Prop
  | .insert f => f.pc = .allocate →
    (∃ i < numItemsPerEntry, getRealPointer (m.hashTable f.hash1 i) = 0 ∨
      getRealPointer (m.hashTable f.hash2 i) = 0) ∨
    ∃ i < numItemsPerEntry, getRealPointer (m.hashTable f.hash1 i) ≠ 0 ∧
      getRealPointer (m.hashTable (m.alternate cfg f.hash1 i) i) = 0
  | _ => True

instance (cfg : Config) (m : Memory) : DecidablePred (Control.RoomNear cfg m)
  | .insert f => inferInstanceAs (Decidable (f.pc = .allocate → _ ∨ _))
  | .idle | .find _ _ | .remove _ => .isTrue trivial

theorem roomNear_roomy (near : (s.control tid).RoomNear cfg s.memory) : s.Roomy cfg tid := by
  intro f site begins
  rw [site] at near
  rcases near begins with home | ⟨i,inside,full,next⟩
  · exact .inl home
  · refine .inr ⟨i,inside,1,by decide,next,?_⟩
    intro j early
    obtain rfl : j = 0 := by omega
    exact full

theorem roomy_entries_owned :
    Owned sampleConfig 0 (endState sampleConfig movingSchedule).memory := by
  have run : Relation.ReflTransGen (StepBy sampleConfig 0) System.initial
      (endState sampleConfig movingSchedule) := endState_single 0 movingSchedule (by decide +kernel)
  have near : Run sampleConfig
      (fun mover u => mover = 0 ∧ (u.control 0).RoomNear sampleConfig u.memory)
      System.initial (endState sampleConfig movingSchedule) :=
    endState_run _ movingSchedule (by decide +kernel)
  apply (owned_iff_roomy run (by decide +kernel)).mpr
  exact near.weaken fun mover u meets => ⟨meets.1,roomNear_roomy meets.2⟩

/-- Four `f` fill bucket 0, their only bucket, and a fifth is refused. -/
def refusingSchedule : List (Nat × Action) :=
  inserts 0 keyF 2 2 ++ inserts 0 keyF 4 4 ++ inserts 0 keyF 6 6 ++ inserts 0 keyF 8 8 ++
    inserts 0 keyF 10 8 ++ [(0,.shuffle [0,1,2,3])] ++ runs 0 80

theorem refused_entry_leaks : ¬∀ (cfg : Config) (tid : Nat) (s : System),
    Relation.ReflTransGen (StepBy cfg tid) System.initial s → s.control tid = .idle →
    Owned cfg tid s.memory := by
  intro owned
  have run : Relation.ReflTransGen (StepBy sampleConfig 0) System.initial
      (endState sampleConfig refusingSchedule) := endState_single 0 refusingSchedule (by decide +kernel)
  rcases owned sampleConfig 0 _ run (by decide +kernel) 10 (by decide +kernel) with
    ⟨b,bucket,i,slot,here,-⟩ | ⟨-,once⟩
  · have nowhere : ∀ b < 2, ∀ i < 4, getRealPointer
        ((endState sampleConfig refusingSchedule).memory.hashTable b i) ≠ 10 := by decide +kernel
    exact nowhere b bucket i slot ((here b i).mpr ⟨rfl,rfl⟩)
  · have never : ((endState sampleConfig refusingSchedule).memory.retiredPtrs 0).count 10 ≠ 1 := by
      decide +kernel
    exact never once

end CuckooFilter.LockFree
