import CuckooFilter.LockFreePath

/-! The indices a relocation computes. `depth` and `i` go up and down and start over with
every restart of path discovery; the levels are what a restart cannot leave. -/
namespace CuckooFilter.LockFree

variable {cfg : Config} {tid : Nat} {m next : Memory} {s t : System} {f g : RelocateFrame}

/-- The index into `route` that the next step writes or reads. -/
def RelocateFrame.routeIndex? (f : RelocateFrame) : Option Int :=
  match f.pc with
  | .discoverDeref depth _ | .traverse depth _ | .traverseReread depth _
  | .traverseDeref depth _ _ | .traverseDest depth _ _ => some depth
  | _ => none

def HelpFrame.bucket? (f : HelpFrame) : Option Nat :=
  match f.pc with
  | .readSource | .markCas _ | .rereadSource | .recheckSource _ _ _ | .clearCas _ _ =>
    some f.tableIdx
  | .deref _ => none
  | .readDest _ newHash | .copyCas _ _ newHash | .sameCas _ newHash | .failCas _ newHash =>
    some newHash

def FindFrame.bucket? (f : FindFrame) : Option Nat :=
  match f.pc with
  | .readFirst | .recheckFirst _ _ => some f.hash1
  | .readSecond _ | .recheckSecond _ _ _ => some f.hash2
  | .compareFirst _ | .compareSecond _ _ => none
  | .help frame => frame.bucket?

def RelocateFrame.bucket? (f : RelocateFrame) : Option Nat :=
  match f.pc with
  | .discover _ | .discoverReread _ => some f.tableIdx
  | .discoverDeref _ _ | .traverseDeref _ _ _ => none
  | .traverse depth _ | .traverseReread depth _ => some (f.sourceIdx depth)
  | .traverseDest _ _ destIdx => some destIdx
  | .discoverHelp _ frame | .traverseHelp _ _ frame | .traverseMove _ _ frame => frame.bucket?

def InsertFrame.bucket? (f : InsertFrame) : Option Nat :=
  match f.pc with
  | .allocate | .shuffle => none
  | .probe _ second _ | .store _ second _ => some (f.bucket second)
  | .kick _ frame => frame.bucket?

def RemoveFrame.bucket? (f : RemoveFrame) : Option Nat :=
  match f.pc with
  | .find frame => frame.bucket?
  | .cas location _ => some (f.hashVal location)

def Control.bucket? : Control → Option Nat
  | .idle => none
  | .insert frame => frame.bucket?
  | .find _ frame => frame.bucket?
  | .remove frame => frame.bucket?

theorem relocate_site {frame : InsertFrame} (inside : frame.relocate? = some f) :
    ∃ rest, frame.pc = .kick rest f := by
  cases pc : frame.pc with
  | kick rest call =>
    simp only [InsertFrame.relocate?,pc] at inside
    cases inside
    exact ⟨rest,rfl⟩
  | _ => simp [InsertFrame.relocate?,pc] at inside

/-- What holds at the entry of `relocate` and over each of its steps, whatever the memory,
holds of every call after a step of the machine. -/
theorem relocate_property (property : RelocateFrame → Prop)
    (entered : ∀ b i, property (.enter b i))
    (kept : ∀ tid m f, property f → (relocate cfg tid m f).2.Holds property)
    (before : ∀ tid f, (s.control tid).relocate? = some f → property f)
    (moved : StepBy cfg tid s t) {other : Nat}
    (inside : (t.control other).relocate? = some g) : property g := by
  by_cases same : other = tid
  · subst other
    rcases step_relocate moved inside with ⟨f,was,flow⟩ | ⟨-,b,i,rfl⟩
    · have after := kept tid s.memory f (before tid f was)
      rwa [flow] at after
    · exact entered b i
  · rw [stepBy_other moved same] at inside
    exact before other g inside

/-- The levels of a discovery lie between `start_level` and the last, those of a traversal
between 0 and the last but one. -/
def RelocateFrame.Levels (cfg : Config) (f : RelocateFrame) : Prop :=
  f.route.length = numMaxKicks ∧ 0 ≤ f.startLevel ∧ f.startLevel ≤ numMaxKicks - 1 ∧
  match f.pc with
  | .discover depth | .discoverHelp depth _ | .discoverReread depth | .discoverDeref depth _ =>
    f.startLevel ≤ depth ∧ depth < numMaxKicks
  | .traverse depth i | .traverseHelp depth i _ | .traverseReread depth i
  | .traverseDeref depth i _ | .traverseMove depth i _ =>
    0 ≤ i ∧ i ≤ depth ∧ depth + 1 < numMaxKicks
  | .traverseDest depth i destIdx =>
    (0 ≤ i ∧ i ≤ depth ∧ depth + 1 < numMaxKicks) ∧ destIdx < cfg.tableSize

theorem pathDiscovery_levels (cfg : Config) (f : RelocateFrame) {level : Int} (low : 0 ≤ level)
    (short : level < numMaxKicks) : (f.pathDiscovery level).Levels cfg :=
  ⟨List.length_replicate,low,by simp only [RelocateFrame.pathDiscovery]; omega,Int.le_refl _,short⟩

theorem discovering_levels {depth : Int} (levels : f.Levels cfg)
    (entry : f.pc = .discover depth ∨ f.pc = .discoverReread depth) :
    f.startLevel ≤ depth ∧ depth < numMaxKicks := by
  obtain ⟨-,-,-,here⟩ := levels
  rcases entry with pc | pc
  · simpa only [pc] using here
  · simpa only [pc] using here

theorem traversing_levels {depth i : Int} (levels : f.Levels cfg)
    (entry : f.pc = .traverse depth i ∨ f.pc = .traverseReread depth i) :
    0 ≤ i ∧ i ≤ depth ∧ depth + 1 < numMaxKicks := by
  obtain ⟨-,-,-,here⟩ := levels
  rcases entry with pc | pc
  · simpa only [pc] using here
  · simpa only [pc] using here

/-- A discovery starts again one level above the traversal's, which is a level still. -/
theorem relocate_levels (levels : f.Levels cfg) : (relocate cfg tid m f).2.Holds (·.Levels cfg) := by
  refine Flow.holds_of_running fun g flow => ?_
  have ⟨length,low,high,here⟩ := levels
  cases relocate_running flow with
  | discoverMarked entry | occupied entry =>
    have discovering := discovering_levels levels entry
    exact ⟨length,low,high,discovering⟩
  | found entry unmarked empty more =>
    obtain ⟨-,short⟩ := discovering_levels levels entry
    exact ⟨length,low,high,more,Int.le_refl _,by omega⟩
  | deeper pc more =>
    simp only [pc] at here
    exact ⟨List.length_set.trans length,low,high,by simp only [RelocateFrame.goto]; omega,more⟩
  | source entry =>
    have traversing := traversing_levels levels entry
    exact ⟨length,low,high,traversing⟩
  | skip entry empty more =>
    obtain ⟨-,upper,short⟩ := traversing_levels levels entry
    exact ⟨length,low,high,more,by omega,short⟩
  | follow pc =>
    simp only [pc] at here
    exact ⟨length,low,high,here,getNextHashIndex_lt cfg.positive _ _⟩
  | restart pc =>
    simp only [pc] at here
    exact pathDiscovery_levels cfg f (by omega) (by omega)
  | move pc =>
    simp only [pc] at here
    exact ⟨length,low,high,here.1⟩
  | moved pc more =>
    simp only [pc] at here
    exact ⟨length,low,high,more,by omega,here.2.2⟩
  | discoverHelping pc | discoverHelped pc | traverseMarked pc | traverseHelping pc
  | traverseHelped pc | moving pc =>
    simp only [pc] at here
    exact ⟨length,low,high,here⟩

def HelpFrame.Aimed (cfg : Config) (f : HelpFrame) : Prop :=
  match f.pc with
  | .readSource | .markCas _ | .rereadSource | .deref _ => True
  | .readDest _ newHash | .recheckSource _ _ newHash | .copyCas _ _ newHash
  | .clearCas _ newHash | .sameCas _ newHash | .failCas _ newHash => newHash < cfg.tableSize

theorem occupied_aimed {f : HelpFrame} (aimed : newHash < cfg.tableSize) :
    (f.occupied ptr1 p newHash).Aimed cfg := by
  unfold HelpFrame.occupied
  split
  · exact aimed
  · exact aimed

theorem helpStep_aimed {f : HelpFrame} (aimed : f.Aimed cfg)
    (stepped : HelpStep cfg m f next (.running after)) : after.Aimed cfg := by
  cases stepped with
  | abort => exact aimed
  | loadMarked | loadUnmarked | mark | markLost | retry => trivial
  | follow => exact getNextHashIndex_lt cfg.positive _ _
  | vacant pc | confirm pc | copy pc =>
    simp only [HelpFrame.Aimed,pc] at aimed
    exact aimed
  | filled pc | copyLost pc =>
    simp only [HelpFrame.Aimed,pc] at aimed
    exact occupied_aimed aimed

theorem help_bucket {f : HelpFrame} (aimed : f.Aimed cfg) (own : cfg.Slot f.tableIdx f.slotIdx)
    (accessed : f.bucket? = some bucket) : bucket < cfg.tableSize := by
  cases pc : f.pc with
  | readSource | markCas | rereadSource | recheckSource | clearCas =>
    simp only [HelpFrame.bucket?,pc] at accessed
    cases accessed
    exact own.1
  | deref => simp [HelpFrame.bucket?,pc] at accessed
  | readDest | copyCas | sameCas | failCas =>
    simp only [HelpFrame.bucket?,pc] at accessed
    cases accessed
    simpa only [HelpFrame.Aimed,pc] using aimed

structure Bounded (cfg : Config) (s : System) : Prop where
  threads : ∀ tid, (s.control tid).Inside cfg
  aimed : ∀ tid f, (s.control tid).help? = some f → f.Aimed cfg
  levels : ∀ tid f, (s.control tid).relocate? = some f → f.Levels cfg

theorem bounded_idle (idle : ∀ tid, s.control tid = .idle) : Bounded cfg s := by
  refine ⟨fun tid => ?_,fun tid f inside => ?_,fun tid f inside => ?_⟩
  · rw [idle tid]
    trivial
  · rw [idle tid] at inside
    cases inside
  · rw [idle tid] at inside
    cases inside

theorem bounded_step (bounded : Bounded cfg s) (moved : StepBy cfg tid s t) : Bounded cfg t := by
  refine ⟨fun other => ?_,fun other f inside => ?_,fun other f inside => ?_⟩
  · by_cases same : other = tid
    · subst other
      obtain ⟨-,⟨action,raw⟩,-⟩ := stepBy_cases moved
      exact threadStep_inside (bounded.threads tid) raw
    · rw [stepBy_other moved same]
      exact bounded.threads other
  · cases help_origin moved inside with
    | kept _ was => exact bounded.aimed other f was
    | called _ entry => subst entry; trivial
    | inside _ was stepped => exact helpStep_aimed (bounded.aimed tid _ was) stepped
  · exact relocate_property (·.Levels cfg)
      (fun _ _ => pathDiscovery_levels cfg _ (Int.le_refl _) (by decide))
      (fun _ _ _ => relocate_levels) bounded.levels moved inside

theorem reachable_bounded (reachable : Reachable cfg s) : Bounded cfg s :=
  Transition.run_invariant (Bounded cfg) (fun _ _ bounded ⟨_,_,moved⟩ => bounded_step bounded moved)
    (bounded_idle fun _ => rfl) reachable

theorem relocate_bucket (levels : f.Levels cfg) (inRange : f.Inside cfg)
    (aimed : ∀ g, f.help? = some g → g.Aimed cfg) (accessed : f.bucket? = some bucket) :
    bucket < cfg.tableSize := by
  obtain ⟨own,route,call⟩ := inRange
  cases pc : f.pc with
  | discover depth | discoverReread depth =>
    simp only [RelocateFrame.bucket?,pc] at accessed
    cases accessed
    exact own.1
  | discoverDeref depth ptr1 | traverseDeref depth i sourcePtr =>
    simp [RelocateFrame.bucket?,pc] at accessed
  | traverse depth i | traverseReread depth i =>
    simp only [RelocateFrame.bucket?,pc] at accessed
    cases accessed
    exact sourceIdx_lt route depth
  | traverseDest depth i destIdx =>
    simp only [RelocateFrame.bucket?,pc] at accessed
    cases accessed
    have here := levels.2.2.2
    simp only [pc] at here
    exact here.2
  | discoverHelp depth frame | traverseHelp depth i frame | traverseMove depth i frame =>
    simp only [RelocateFrame.bucket?,pc] at accessed
    have nested : f.help? = some frame := by simp [RelocateFrame.help?,pc]
    exact help_bucket (aimed frame nested) (call frame nested) accessed

theorem find_bucket {f : FindFrame} (inRange : f.Inside cfg)
    (aimed : ∀ g, f.help? = some g → g.Aimed cfg) (accessed : f.bucket? = some bucket) :
    bucket < cfg.tableSize := by
  obtain ⟨first,second,-,call⟩ := inRange
  cases pc : f.pc with
  | readFirst | recheckFirst =>
    simp only [FindFrame.bucket?,pc] at accessed
    cases accessed
    exact first
  | readSecond | recheckSecond =>
    simp only [FindFrame.bucket?,pc] at accessed
    cases accessed
    exact second
  | compareFirst | compareSecond => simp [FindFrame.bucket?,pc] at accessed
  | help frame =>
    simp only [FindFrame.bucket?,pc] at accessed
    have nested : f.help? = some frame := by simp [FindFrame.help?,pc]
    exact help_bucket (aimed frame nested) (call frame nested) accessed

/-- No thread reads or writes outside the table. -/
theorem accessed_in_table (bounded : Bounded cfg s)
    (accessed : (s.control tid).bucket? = some bucket) : bucket < cfg.tableSize := by
  have inRange := bounded.threads tid
  have aimed := bounded.aimed tid
  have levels := bounded.levels tid
  cases site : s.control tid with
  | idle => rw [site] at accessed; cases accessed
  | insert frame =>
    rw [site] at inRange aimed levels accessed
    obtain ⟨first,second,here⟩ := inRange
    cases pc : frame.pc with
    | allocate | shuffle => simp [Control.bucket?,InsertFrame.bucket?,pc] at accessed
    | probe i side | store i side =>
      simp only [Control.bucket?,InsertFrame.bucket?,pc] at accessed
      cases accessed
      unfold InsertFrame.bucket
      split
      · exact second
      · exact first
    | kick rest call =>
      simp only [pc] at here
      simp only [Control.bucket?,InsertFrame.bucket?,pc] at accessed
      have inside : frame.relocate? = some call := by simp [InsertFrame.relocate?,pc]
      refine relocate_bucket (levels call inside) here.2 (fun g nested => ?_) accessed
      exact aimed g (by rw [Control.help?,inside]; exact nested)
  | find key frame =>
    rw [site] at inRange aimed accessed
    exact find_bucket inRange aimed accessed
  | remove frame =>
    rw [site] at inRange aimed accessed
    obtain ⟨first,second,search⟩ := inRange
    cases pc : frame.pc with
    | find inner =>
      simp only [Control.bucket?,RemoveFrame.bucket?,pc] at accessed
      have inside : frame.find? = some inner := by simp [RemoveFrame.find?,pc]
      refine find_bucket (search inner inside) (fun g nested => ?_) accessed
      exact aimed g (by rw [Control.help?,inside]; exact nested)
    | cas location ptr1 =>
      simp only [Control.bucket?,RemoveFrame.bucket?,pc] at accessed
      cases accessed
      unfold RemoveFrame.hashVal
      split
      · exact first
      · exact second

/-- Over any number of restarts, the route is written and read inside its array, a restart
begins at one of its levels, and every bucket is in the table. -/
theorem relocate_in_bounds (reachable : Reachable cfg s)
    (inside : (s.control tid).relocate? = some f) :
    f.route.length = numMaxKicks ∧
    (∀ depth, f.routeIndex? = some depth → 0 ≤ depth ∧ depth < numMaxKicks) ∧
    f.startLevel ≤ numMaxKicks - 1 ∧
    ∀ bucket, f.bucket? = some bucket → bucket < cfg.tableSize := by
  have bounded := reachable_bounded reachable
  obtain ⟨length,low,high,here⟩ := bounded.levels tid f inside
  refine ⟨length,fun depth index => ?_,high,fun bucket accessed => ?_⟩
  · cases pc : f.pc with
    | discoverDeref | traverse | traverseReread | traverseDeref | traverseDest =>
      simp only [RelocateFrame.routeIndex?,pc] at index
      cases index
      simp only [pc] at here
      omega
    | _ => simp [RelocateFrame.routeIndex?,pc] at index
  · have own : (s.control tid).bucket? = some bucket := by
      cases site : s.control tid with
      | insert frame =>
        rw [site] at inside
        obtain ⟨rest,kick⟩ := relocate_site inside
        rw [Control.bucket?,InsertFrame.bucket?,kick]
        exact accessed
      | _ => rw [site] at inside; cases inside
    exact accessed_in_table bounded own

/-- The traversal after a restart at level 1. -/
def restartedFrame : RelocateFrame := ⟨0,0,[0,2,0,0,0,0,0,0,0,0],1,.traverse 1 1⟩

theorem restarted_in_bounds : restartedFrame.route.length = numMaxKicks ∧
    (∀ depth, restartedFrame.routeIndex? = some depth → 0 ≤ depth ∧ depth < numMaxKicks) ∧
    restartedFrame.startLevel ≤ numMaxKicks - 1 ∧
    ∀ bucket, restartedFrame.bucket? = some bucket → bucket < fourBuckets.tableSize := by
  have inside : ((endState fourBuckets (kickingSchedule ++ inserts 0 keyF 16 2 ++
      runs 1 4)).control 1).relocate? = some restartedFrame := by decide +kernel
  exact relocate_in_bounds (endState_reachable _ _) inside

end CuckooFilter.LockFree
