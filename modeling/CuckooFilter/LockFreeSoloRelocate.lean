import CuckooFilter.LockFreeSoloFind

/-! A relocation alone. Discovery follows unmarked entries from bucket to bucket and
helps the marked ones; the traversal moves the last entry of the path and finds the
rest of the way empty. A restart follows only help that moved something, or never
gets anywhere. -/
namespace CuckooFilter.LockFree

variable {cfg : Config} {tid : Nat} {m n : Memory} {f g : RelocateFrame}

def RelocateFrame.afterDiscoverHelp (f : RelocateFrame) (depth : Int) :
    Flow HelpFrame Unit → Flow RelocateFrame Bool
  | .running frame => .running (f.goto (.discoverHelp depth frame))
  | .returned _ => .running (f.goto (.discoverReread depth))

def RelocateFrame.afterTraverseHelp (f : RelocateFrame) (depth i : Int) :
    Flow HelpFrame Unit → Flow RelocateFrame Bool
  | .running frame => .running (f.goto (.traverseHelp depth i frame))
  | .returned _ => .running (f.goto (.traverseReread depth i))

def RelocateFrame.afterMove (f : RelocateFrame) (depth i : Int) :
    Flow HelpFrame Unit → Flow RelocateFrame Bool
  | .running frame => .running (f.goto (.traverseMove depth i frame))
  | .returned _ => f.iterate depth (i - 1)

theorem relocate_discoverHelp (cfg : Config) (tid : Nat) (f : RelocateFrame) (depth : Int)
    (m : Memory) (frame : HelpFrame) :
    relocate cfg tid m (f.goto (.discoverHelp depth frame)) =
      ((helpRelocate cfg tid m frame).1,
        f.afterDiscoverHelp depth (helpRelocate cfg tid m frame).2) := by
  simp only [relocate,RelocateFrame.goto]
  cases helpRelocate cfg tid m frame with | mk next flow =>
  cases flow <;> rfl

theorem relocate_traverseHelp (cfg : Config) (tid : Nat) (f : RelocateFrame) (depth i : Int)
    (m : Memory) (frame : HelpFrame) :
    relocate cfg tid m (f.goto (.traverseHelp depth i frame)) =
      ((helpRelocate cfg tid m frame).1,
        f.afterTraverseHelp depth i (helpRelocate cfg tid m frame).2) := by
  simp only [relocate,RelocateFrame.goto]
  cases helpRelocate cfg tid m frame with | mk next flow =>
  cases flow <;> rfl

theorem relocate_move (cfg : Config) (tid : Nat) (f : RelocateFrame) (depth i : Int)
    (m : Memory) (frame : HelpFrame) :
    relocate cfg tid m (f.goto (.traverseMove depth i frame)) =
      ((helpRelocate cfg tid m frame).1,f.afterMove depth i (helpRelocate cfg tid m frame).2) := by
  simp only [relocate,RelocateFrame.goto]
  cases helpRelocate cfg tid m frame with | mk next flow =>
  cases flow <;> rfl

abbrev RelocateFrame.source (f : RelocateFrame) (m : Memory) (depth : Int) : TablePointer :=
  m.hashTable (f.sourceIdx depth) f.slotIdx

/-- An iteration goes on to the next or starts the discovery again. -/
def RelocateFrame.Onward (f : RelocateFrame) (depth i : Int) (flow : Flow RelocateFrame Bool) : Prop :=
  flow = f.iterate depth (i - 1) ∨ flow = .running (f.pathDiscovery (i + 1))

/-- The outcomes of one iteration alone. -/
inductive Traversed (cfg : Config) (m : Memory) (f : RelocateFrame) (depth i : Int) (n : Memory) :
    Flow RelocateFrame Bool → Prop where
  | skipped (table : n.hashTable = m.hashTable) (empty : getRealPointer (f.source m depth) = 0) :
      Traversed cfg m f depth i n (f.iterate depth (i - 1))
  | moved (present : getRealPointer (f.source m depth) ≠ 0)
      (unmarked : getMarked (f.source m depth) = false)
      (outcome : Settled cfg (m.write (f.sourceIdx depth) f.slotIdx
        (getNewMark (f.source m depth) true)) (f.sourceIdx depth) f.slotIdx n)
      (vacant : getRealPointer
        (m.hashTable (m.alternate cfg (f.sourceIdx depth) f.slotIdx) f.slotIdx) = 0) :
      Traversed cfg m f depth i n (f.iterate depth (i - 1))
  | helped (marked : getMarked (f.source m depth) = true)
      (loose : ¬Stuck cfg m (f.sourceIdx depth) f.slotIdx) (tidy : n.Tidy cfg)
      (less : n.slack cfg < m.slack cfg) (onward : f.Onward depth i flow) :
      Traversed cfg m f depth i n flow
  | refused (table : n.hashTable = m.hashTable) (present : getRealPointer (f.source m depth) ≠ 0)
      (full : getRealPointer
        (m.hashTable (m.alternate cfg (f.sourceIdx depth) f.slotIdx) f.slotIdx) ≠ 0)
      (stands : getMarked (f.source m depth) = true → Stuck cfg m (f.sourceIdx depth) f.slotIdx) :
      Traversed cfg m f depth i n (.running (f.pathDiscovery (i + 1)))

/-- What an iteration does with the source word it read. -/
inductive Sourced (cfg : Config) (m : Memory) (f : RelocateFrame) (depth i : Int) (n : Memory) :
    Flow RelocateFrame Bool → Prop where
  | skipped (table : n.hashTable = m.hashTable) (empty : getRealPointer (f.source m depth) = 0) :
      Sourced cfg m f depth i n (f.iterate depth (i - 1))
  | moved (present : getRealPointer (f.source m depth) ≠ 0)
      (vacant : getRealPointer
        (m.hashTable (m.alternate cfg (f.sourceIdx depth) f.slotIdx) f.slotIdx) = 0)
      (effect : HelpEffect cfg m (f.sourceIdx depth) f.slotIdx true n) :
      Sourced cfg m f depth i n (f.iterate depth (i - 1))
  | refused (table : n.hashTable = m.hashTable) (present : getRealPointer (f.source m depth) ≠ 0)
      (full : getRealPointer
        (m.hashTable (m.alternate cfg (f.sourceIdx depth) f.slotIdx) f.slotIdx) ≠ 0) :
      Sourced cfg m f depth i n (.running (f.pathDiscovery (i + 1)))

theorem HelpEffect.alike (effect : HelpEffect cfg m' b i initiator n) (same : Alike m m') :
    HelpEffect cfg m b i initiator n := by
  cases effect with
  | nothing unmarked idle table =>
    rw [same.table] at unmarked idle table
    exact .nothing unmarked idle table
  | settled moving outcome => exact .settled (same.table ▸ moving) (outcome.alike same)
  | initiated began unmarked present outcome =>
    rw [same.table] at unmarked present
    refine .initiated began unmarked present (outcome.alike ⟨?_,same.heap⟩)
    simp only [Memory.write,same.table]

theorem sourced_alone (same : Alike m now) (tidy : m.Tidy cfg)
    (slot : cfg.Slot (f.sourceIdx depth) f.slotIdx) (i : Int) :
    Ends (relocate cfg tid) (Sourced cfg m f depth i) now
      (f.sourced depth i (f.source m depth)) := by
  unfold RelocateFrame.sourced
  by_cases empty : getRealPointer (f.source m depth) = 0
  · rw [if_pos empty]
    exact .here (.skipped same.table empty)
  rw [if_neg empty]
  have followed : relocate cfg tid now (f.goto (.traverseDeref depth i (f.source m depth))) =
      (now,.running (f.goto (.traverseDest depth i
        (m.alternate cfg (f.sourceIdx depth) f.slotIdx)))) := by
    simp only [relocate,RelocateFrame.goto,Memory.alternate,same.str]
    rfl
  refine .step followed ?_
  by_cases full : getRealPointer
      (m.hashTable (m.alternate cfg (f.sourceIdx depth) f.slotIdx) f.slotIdx) = 0
  · refine .step (if_neg (not_not.mpr (same.table ▸ full))) ?_
    refine Ends.call (fun frame => f.goto (.traverseMove depth i frame)) (f.afterMove depth i)
      (fun _ => rfl) (relocate_move cfg tid f depth i)
      (source_alone (f := .enter (f.sourceIdx depth) f.slotIdx true) (.inl rfl) ?_) ?_
    · exact tidy.table same.table _ _ slot
    rintro n flow ⟨rfl,effect⟩
    exact .here (.moved empty full (effect.alike (same.trans ⟨rfl,rfl⟩)))
  · refine .step (if_pos (same.table ▸ full)) ?_
    exact .here (.refused same.table empty full)

theorem Sourced.onward (outcome : Sourced cfg m f depth i n flow) (tidy : m.Tidy cfg)
    (slot : cfg.Slot (f.sourceIdx depth) f.slotIdx) :
    n.Tidy cfg ∧ n.slack cfg ≤ m.slack cfg ∧ f.Onward depth i flow := by
  cases outcome with
  | skipped table empty => exact ⟨tidy.table table,(slack_table table).le,.inl rfl⟩
  | moved present vacant effect => exact ⟨effect.tidy tidy,effect.slack_le slot,.inl rfl⟩
  | refused table present full => exact ⟨tidy.table table,(slack_table table).le,.inr rfl⟩

theorem traverse_alone (tidy : m.Tidy cfg) (slot : cfg.Slot (f.sourceIdx depth) f.slotIdx) (i : Int) :
    Ends (relocate cfg tid) (Traversed cfg m f depth i) m (.running (f.goto (.traverse depth i))) := by
  cases marked : getMarked (f.source m depth) with
  | false =>
    have unmarked : ¬getMarked (f.source m depth) = true := by simp [marked]
    have sourced : Ends (relocate cfg tid) (Sourced cfg m f depth i) m
        (f.sourced depth i (f.source m depth)) := sourced_alone (.refl m) tidy slot i
    refine .step (if_neg unmarked) (sourced.mono ?_)
    intro n flow outcome
    cases outcome with
    | skipped table empty => exact .skipped table empty
    | moved present vacant effect =>
      cases effect with
      | nothing unmarked idle table => exact absurd (idle rfl) present
      | settled moving outcome => exact absurd moving.1 unmarked
      | initiated began unmarked _ outcome => exact .moved present unmarked outcome vacant
    | refused table present full => exact .refused table present full (by simp [marked])
  | true =>
    refine .step (if_pos marked) ?_
    refine Ends.call (fun frame => f.goto (.traverseHelp depth i frame)) (f.afterTraverseHelp depth i)
      (fun _ => rfl) (relocate_traverseHelp cfg tid f depth i)
      (help_slot (.clearHazard m tid) tidy slot marked) ?_
    rintro n flow ⟨rfl,kept,⟨less,loose⟩ | ⟨stuck,same⟩⟩
    · refine .step rfl ((sourced_alone (.refl n) kept slot i).mono ?_)
      intro n' flow outcome
      obtain ⟨kept',still,onward⟩ := outcome.onward kept slot
      exact .helped marked loose kept' (lt_of_le_of_lt still less) onward
    · have reread : relocate cfg tid n (f.goto (.traverseReread depth i)) =
          (n,f.sourced depth i (f.source m depth)) := by
        simp only [relocate,RelocateFrame.goto,same.table]
        rfl
      refine .step reread ((sourced_alone same tidy slot i).mono ?_)
      intro n' flow outcome
      cases outcome with
      | skipped table empty => exact absurd empty (tidy _ _ slot marked)
      | moved present vacant effect => exact absurd vacant stuck.2.1
      | refused table' present full => exact .refused table' present full fun _ => stuck

/-- The traversal is over: `true`, or a restart. -/
def RelocateFrame.Leaves (f : RelocateFrame) (flow : Flow RelocateFrame Bool) : Prop :=
  flow = .returned true ∨ ∃ level, flow = .running (f.pathDiscovery level)

theorem iterate_over (f : RelocateFrame) (depth : Int) (below : i < 0) :
    f.iterate depth i = .returned true := if_neg (by omega)

theorem iterate_next (f : RelocateFrame) (depth : Int) (more : 0 ≤ i) :
    f.iterate depth i = .running (f.goto (.traverse depth i)) := if_pos more

theorem traversal_ends (slot : cfg.Slot (f.sourceIdx depth) f.slotIdx) (tidy : m.Tidy cfg) (i : Int) :
    Ends (relocate cfg tid) (fun n flow => n.Tidy cfg ∧ n.slack cfg ≤ m.slack cfg ∧ f.Leaves flow) m
      (f.iterate depth i) := by
  induction size : (i + 1).toNat generalizing m i with
  | zero =>
    rw [iterate_over f depth (by omega)]
    exact .here ⟨tidy,le_rfl,.inl rfl⟩
  | succ k ih =>
    have again {n : Memory} (kept : n.Tidy cfg) (still : n.slack cfg ≤ m.slack cfg) :
        Ends (relocate cfg tid) (fun n flow => n.Tidy cfg ∧ n.slack cfg ≤ m.slack cfg ∧ f.Leaves flow) n
          (f.iterate depth (i - 1)) :=
      (ih kept (i - 1) (by omega)).mono fun _ _ ⟨kept',less,leaves⟩ => ⟨kept',less.trans still,leaves⟩
    rw [iterate_next f depth (by omega)]
    refine (traverse_alone tidy slot i).bind ?_
    intro n flow outcome
    cases outcome with
    | skipped table empty => exact again (tidy.table table) (slack_table table).le
    | moved present unmarked outcome vacant =>
      have effect : HelpEffect cfg m (f.sourceIdx depth) f.slotIdx true n :=
        .initiated rfl unmarked present outcome
      exact again (effect.tidy tidy) (effect.slack_le slot)
    | helped marked loose kept less onward =>
      rcases onward with rfl | rfl
      · exact again kept less.le
      · exact .here ⟨kept,less.le,.inr ⟨_,rfl⟩⟩
    | refused table present full stands =>
      exact .here ⟨tidy.table table,(slack_table table).le,.inr ⟨_,rfl⟩⟩

/-- A traversal with an empty source passes over it at every level. -/
theorem traversal_skips (slot : cfg.Slot (f.sourceIdx depth) f.slotIdx) (tidy : m.Tidy cfg)
    (empty : getRealPointer (f.source m depth) = 0) (i : Int) :
    Ends (relocate cfg tid) (fun n flow => flow = .returned true ∧ n.hashTable = m.hashTable) m
      (f.iterate depth i) := by
  induction size : (i + 1).toNat generalizing m i with
  | zero =>
    rw [iterate_over f depth (by omega)]
    exact .here ⟨rfl,rfl⟩
  | succ k ih =>
    rw [iterate_next f depth (by omega)]
    refine (traverse_alone tidy slot i).bind ?_
    intro n flow outcome
    cases outcome with
    | skipped table _ =>
      have still : getRealPointer (f.source n depth) = 0 := by rwa [RelocateFrame.source,table]
      refine (ih (tidy.table table) still (i - 1) (by omega)).mono ?_
      rintro n' flow ⟨rfl,table'⟩
      exact ⟨rfl,table'.trans table⟩
    | moved present => exact absurd empty present
    | helped marked => exact absurd empty (tidy _ _ slot marked)
    | refused table present => exact absurd empty present

/-- The two reads of the slot at `tableIdx`. -/
def RelocateFrame.Looks (f : RelocateFrame) (depth : Int) : Prop :=
  f.pc = .discover depth ∨ f.pc = .discoverReread depth

def RelocateFrame.follow (f : RelocateFrame) (cfg : Config) (m : Memory) (depth : Int) :
    RelocateFrame :=
  { f with
    route := f.route.set depth.toNat f.tableIdx
    tableIdx := m.alternate cfg f.tableIdx f.slotIdx
    pc := .discover (depth + 1) }

inductive Looked (cfg : Config) (m : Memory) (f : RelocateFrame) (depth : Int) (n : Memory) :
    Flow RelocateFrame Bool → Prop where
  | found (table : n.hashTable = m.hashTable)
      (empty : getRealPointer (m.hashTable f.tableIdx f.slotIdx) = 0) :
      Looked cfg m f depth n (f.iterate (depth - 1) (depth - 1))
  | followed (table : n.hashTable = m.hashTable)
      (present : getRealPointer (m.hashTable f.tableIdx f.slotIdx) ≠ 0)
      (unmarked : getMarked (m.hashTable f.tableIdx f.slotIdx) = false)
      (more : depth + 1 < numMaxKicks) : Looked cfg m f depth n (.running (f.follow cfg m depth))
  | ended (table : n.hashTable = m.hashTable)
      (unmarked : getMarked (m.hashTable f.tableIdx f.slotIdx) = false)
      (present : getRealPointer (m.hashTable f.tableIdx f.slotIdx) ≠ 0)
      (deepest : ¬depth + 1 < numMaxKicks) : Looked cfg m f depth n (.returned false)
  | helped (marked : getMarked (m.hashTable f.tableIdx f.slotIdx) = true)
      (loose : ¬Stuck cfg m f.tableIdx f.slotIdx) (tidy : n.Tidy cfg) (less : n.slack cfg < m.slack cfg) :
      Looked cfg m f depth n (.running (f.goto (.discoverReread depth)))
  | blocked (same : Alike m n) (stuck : Stuck cfg m f.tableIdx f.slotIdx) :
      Looked cfg m f depth n (.running (f.goto (.discoverReread depth)))

theorem discovered_alone (same : Alike m now)
    (unmarked : getMarked (m.hashTable f.tableIdx f.slotIdx) = false) :
    Ends (relocate cfg tid) (Looked cfg m f depth) now
      (f.discovered depth (m.hashTable f.tableIdx f.slotIdx)) := by
  unfold RelocateFrame.discovered
  by_cases present : getRealPointer (m.hashTable f.tableIdx f.slotIdx) ≠ 0
  · rw [if_pos present]
    have followed : relocate cfg tid now (f.goto (.discoverDeref depth
        (m.hashTable f.tableIdx f.slotIdx))) = (now,if depth + 1 < numMaxKicks then
          .running (f.follow cfg m depth) else .returned false) := by
      simp only [relocate,RelocateFrame.goto,same.str]
      rfl
    by_cases more : depth + 1 < numMaxKicks
    · rw [if_pos more] at followed
      exact .step followed (.here (.followed same.table present unmarked more))
    · rw [if_neg more] at followed
      exact .step followed (.here (.ended same.table unmarked present more))
  · rw [if_neg present]
    exact .here (.found same.table (not_not.mp present))

theorem discover_helps (same : Alike m now) (tidy : m.Tidy cfg) (slot : cfg.Slot f.tableIdx f.slotIdx)
    (marked : getMarked (m.hashTable f.tableIdx f.slotIdx) = true) (depth : Int) :
    Ends (relocate cfg tid) (Looked cfg m f depth) now
      (.running (f.goto (.discoverHelp depth (.enter f.tableIdx f.slotIdx false)))) := by
  refine Ends.call (fun frame => f.goto (.discoverHelp depth frame)) (f.afterDiscoverHelp depth)
    (fun _ => rfl) (relocate_discoverHelp cfg tid f depth) (help_slot same tidy slot marked) ?_
  rintro n flow ⟨rfl,kept,⟨less,loose⟩ | ⟨stuck,alike⟩⟩
  · exact .here (.helped marked loose kept less)
  · exact .here (.blocked alike stuck)

theorem look_read (tidy : m.Tidy cfg) (looks : f.Looks depth) (slot : cfg.Slot f.tableIdx f.slotIdx) :
    Ends (relocate cfg tid) (Looked cfg m f depth) (relocate cfg tid m f).1
      (relocate cfg tid m f).2 := by
  cases marked : getMarked (m.hashTable f.tableIdx f.slotIdx) with
  | true =>
    rcases looks with pc | pc
    · simp only [relocate,pc,marked,if_true]
      refine discover_helps ?_ tidy slot marked depth
      exact ⟨rfl,rfl⟩
    · simp only [relocate,pc,marked,if_true]
      refine discover_helps ?_ tidy slot marked depth
      exact ⟨rfl,rfl⟩
  | false =>
    rcases looks with pc | pc
    · simp only [relocate,pc,marked]
      exact discovered_alone ⟨rfl,rfl⟩ marked
    · simp only [relocate,pc,marked]
      exact discovered_alone (.refl m) marked

theorem look_alone (tidy : m.Tidy cfg) (looks : f.Looks depth) (slot : cfg.Slot f.tableIdx f.slotIdx) :
    Ends (relocate cfg tid) (Looked cfg m f depth) m (.running f) :=
  .next (look_read tidy looks slot)

/-- At the depth `d` of a discovery that began at `start`: it stands where it began,
or the last entry it followed leads to the slot it stands at. -/
def RelocateFrame.Path (f : RelocateFrame) (cfg : Config) (m : Memory) (start : RelocateFrame)
    (level d : Int) : Prop :=
  (d = level ∧ f.route = start.route ∧ f.tableIdx = start.tableIdx) ∨
  (level < d ∧ (start.route.length = numMaxKicks →
    getRealPointer (f.source m (d - 1)) ≠ 0 ∧ getMarked (f.source m (d - 1)) = false ∧
    m.alternate cfg (f.sourceIdx (d - 1)) f.slotIdx = f.tableIdx))

/-- Some help moved something, from a memory with a mark. -/
def Gained (cfg : Config) (m n : Memory) : Prop :=
  (∃ b i, getMarked (m.hashTable b i) = true) ∧ n.slack cfg < m.slack cfg

structure RelocateFrame.Known (f : RelocateFrame) (cfg : Config) (m n : Memory)
    (start : RelocateFrame) (level d : Int) : Prop where
  tidy : n.Tidy cfg
  slot : cfg.Slot f.tableIdx f.slotIdx
  index : f.slotIdx = start.slotIdx
  route : ∀ source ∈ f.route, source < cfg.tableSize
  length : f.route.length = start.route.length
  path : Gained cfg m n ∨ Alike m n ∧ f.Path cfg m start level d

/-- A discovery alone that is over, or stands before a mark that stays. -/
inductive Discovered (cfg : Config) (m : Memory) (start : RelocateFrame) (level : Int) (n : Memory) :
    Flow RelocateFrame Bool → Prop where
  | found {f : RelocateFrame} (known : f.Known cfg m n start level d)
      (empty : getRealPointer (n.hashTable f.tableIdx f.slotIdx) = 0) :
      Discovered cfg m start level n (f.iterate (d - 1) (d - 1))
  | ended (path : Gained cfg m n ∨ Alike m n) : Discovered cfg m start level n (.returned false)
  | blocked {f : RelocateFrame} (looks : f.Looks d) (stuck : Stuck cfg n f.tableIdx f.slotIdx)
      (path : Gained cfg m n ∨ Alike m n) : Discovered cfg m start level n (.running f)

def RelocatePc.depth : RelocatePc → Int
  | .discover depth | .discoverReread depth => depth
  | _ => 0

/-- What is left of a discovery: its helps, then its depths. -/
def discoveryLeft (cfg : Config) (m : Memory) : Flow RelocateFrame Bool → Nat
  | .running f => m.slack cfg + (numMaxKicks - f.pc.depth).toNat
  | .returned _ => 0

theorem gained_of (same : Gained cfg m n ∨ Alike m n)
    (marked : getMarked (n.hashTable b i) = true) (less : later.slack cfg < n.slack cfg) :
    Gained cfg m later := by
  rcases same with gained | alike
  · exact ⟨gained.1,less.trans gained.2⟩
  · rw [slack_table alike.table] at less
    exact ⟨⟨b,i,alike.table ▸ marked⟩,less⟩

theorem RelocateFrame.Known.same (known : f.Known cfg m n start level d) :
    Gained cfg m n ∨ Alike m n :=
  known.path.imp_right And.left

theorem Gained.alike (gained : Gained cfg m n) (same : Alike n later) : Gained cfg m later :=
  ⟨gained.1,(slack_table same.table).trans_lt gained.2⟩

theorem RelocateFrame.Known.alike (known : f.Known cfg m n start level d) (same : Alike n later) :
    f.Known cfg m later start level d :=
  ⟨known.tidy.table same.table,known.slot,known.index,known.route,known.length,
    known.path.imp (fun gained => gained.alike same) fun ⟨alike,path⟩ => ⟨alike.trans same,path⟩⟩

theorem follow_source {d : Int} (full : f.route.length = numMaxKicks) (more : d + 1 < numMaxKicks) :
    (f.follow cfg n d).sourceIdx (d + 1 - 1) = f.tableIdx := by
  have inside : d.toNat < f.route.length := by
    rw [full]
    simp only [numMaxKicks] at more ⊢
    omega
  simp [RelocateFrame.sourceIdx,RelocateFrame.follow,inside]

theorem known_followed (known : f.Known cfg m n start level d)
    (same : Alike n later)
    (present : getRealPointer (n.hashTable f.tableIdx f.slotIdx) ≠ 0)
    (unmarked : getMarked (n.hashTable f.tableIdx f.slotIdx) = false) (more : d + 1 < numMaxKicks) :
    (f.follow cfg n d).Known cfg m later start level (d + 1) := by
  refine ⟨known.tidy.table same.table,⟨alternate_lt cfg n _ _,known.slot.2⟩,known.index,?_,?_,?_⟩
  · intro source member
    rcases List.mem_or_eq_of_mem_set member with old | rfl
    · exact known.route source old
    · exact known.slot.1
  · simpa [RelocateFrame.follow] using known.length
  · rcases known.path with gained | ⟨alike,path⟩
    · exact .inl (gained.alike same)
    · refine .inr ⟨alike.trans same,.inr ⟨?_,?_⟩⟩
      · rcases path with ⟨rfl,-⟩ | ⟨further,-⟩ <;> omega
      · intro full
        have source : (f.follow cfg n d).sourceIdx (d + 1 - 1) = f.tableIdx :=
          follow_source (known.length.trans full) more
        simp only [RelocateFrame.source,source]
        rw [alike.table] at present unmarked
        refine ⟨present,unmarked,?_⟩
        simp only [RelocateFrame.follow,Memory.alternate,alike.table,alike.str]

theorem discover_alone (looks : f.Looks d) (known : f.Known cfg m n start level d) :
    Ends (relocate cfg tid) (Discovered cfg m start level) n (.running f) := by
  refine .loop (fun n flow => ∃ f d, flow = .running f ∧ f.Looks d ∧
    f.Known cfg m n start level d) (discoveryLeft cfg) ?_ ⟨f,d,rfl,looks,known⟩
  rintro n _ ⟨f,d,rfl,looks,known⟩
  have depth : f.pc.depth = d := by rcases looks with pc | pc <;> rw [pc] <;> rfl
  refine .mono ((look_alone known.tidy looks known.slot).steady (relocate_steady cfg tid)) ?_
  rintro later flow ⟨outcome,steady⟩
  cases outcome with
  | found table empty =>
    refine .inl (.found (known.alike ⟨table,steady.heap⟩) ?_)
    rwa [table]
  | followed table present unmarked more =>
    refine .inr ⟨⟨_,_,rfl,.inl rfl,known_followed known ⟨table,steady.heap⟩ present unmarked
      more⟩,?_⟩
    have deeper : (f.follow cfg n d).pc.depth = d + 1 := rfl
    simp only [discoveryLeft,slack_table table,depth,deeper]
    omega
  | ended table _ _ =>
    refine .inl (.ended ?_)
    exact known.same.imp (fun gained => gained.alike ⟨table,steady.heap⟩)
      fun alike => alike.trans ⟨table,steady.heap⟩
  | helped marked loose tidy less =>
    refine .inr ⟨⟨_,_,rfl,.inr rfl,?_⟩,?_⟩
    · exact ⟨tidy,known.slot,known.index,known.route,known.length,
        .inl (gained_of known.same marked less)⟩
    · have still : (f.goto (.discoverReread d)).pc.depth = d := rfl
      simp only [discoveryLeft,depth,still]
      omega
  | blocked same stuck =>
    refine .inl (.blocked (.inr rfl) (stuck.alike same) ?_)
    exact known.same.imp (fun gained => gained.alike same) fun alike => alike.trans same

theorem mark_alternate (m : Memory) (b i : Nat) :
    (m.write b i (getNewMark (m.hashTable b i) true)).alternate cfg b i = m.alternate cfg b i := by
  simp [Memory.alternate,Memory.write_table]

theorem initiated_moves (present : getRealPointer (m.hashTable b i) ≠ 0)
    (vacant : getRealPointer (m.hashTable (m.alternate cfg b i) i) = 0)
    (outcome : Settled cfg (m.write b i (getNewMark (m.hashTable b i) true)) b i n)
    (slot : cfg.Slot b i) : n.slack cfg < m.slack cfg := by
  have away : m.alternate cfg b i ≠ b := by
    intro same
    rw [same] at vacant
    exact present vacant
  have marking : (m.write b i (getNewMark (m.hashTable b i) true)).slack cfg ≤ m.slack cfg :=
    slack_write_le (by simp)
  have moving : Relocating ((m.write b i (getNewMark (m.hashTable b i) true)).hashTable b i) := by
    simpa [Relocating,Memory.write_table] using present
  rcases outcome.progress slot moving with ⟨less,-⟩ | ⟨stuck,-⟩
  · exact lt_of_lt_of_le less marking
  · have full := stuck.2.1
    rw [mark_alternate,Memory.write_table,if_neg (by simp [away])] at full
    exact absurd vacant full

/-- A traversal that is not refused at its first source moves something. -/
theorem traversal_gains (slot : cfg.Slot (f.sourceIdx depth) f.slotIdx) (tidy : m.Tidy cfg)
    (present : getRealPointer (f.source m depth) ≠ 0)
    (free : getRealPointer (m.hashTable (m.alternate cfg (f.sourceIdx depth) f.slotIdx) f.slotIdx) ≠ 0 →
      ¬(getMarked (f.source m depth) = true → Stuck cfg m (f.sourceIdx depth) f.slotIdx))
    (more : 0 ≤ i) :
    Ends (relocate cfg tid) (fun n flow => n.Tidy cfg ∧ n.slack cfg < m.slack cfg ∧ f.Leaves flow) m
      (f.iterate depth i) := by
  have rest {n : Memory} (kept : n.Tidy cfg) (less : n.slack cfg < m.slack cfg) :
      Ends (relocate cfg tid) (fun n flow => n.Tidy cfg ∧ n.slack cfg < m.slack cfg ∧ f.Leaves flow) n
        (f.iterate depth (i - 1)) :=
    (traversal_ends slot kept (i - 1)).mono fun _ _ ⟨kept',still,leaves⟩ =>
      ⟨kept',lt_of_le_of_lt still less,leaves⟩
  rw [iterate_next f depth more]
  refine (traverse_alone tidy slot i).bind ?_
  intro n flow outcome
  cases outcome with
  | skipped table empty => exact absurd empty present
  | moved _ unmarked outcome vacant =>
    have effect : HelpEffect cfg m (f.sourceIdx depth) f.slotIdx true n :=
      .initiated rfl unmarked present outcome
    exact rest (effect.tidy tidy) (initiated_moves present vacant outcome slot)
  | helped marked loose kept less onward =>
    rcases onward with rfl | rfl
    · exact rest kept less
    · exact .here ⟨kept,less,.inr ⟨_,rfl⟩⟩
  | refused table _ full stands => exact absurd stands (free full)

/-- A restart that comes back to itself: the discovery ends at once, the cleared route
names bucket 0, and the entry there cannot move. -/
def RelocateFrame.Circles (f : RelocateFrame) (cfg : Config) (m : Memory) : Prop :=
  ∃ level, 0 < level ∧ f.pc = .discover level ∧ f.route = List.replicate numMaxKicks 0 ∧
    getRealPointer (m.hashTable f.tableIdx f.slotIdx) = 0 ∧
    getRealPointer (m.hashTable 0 f.slotIdx) ≠ 0 ∧
    getRealPointer (m.hashTable (m.alternate cfg 0 f.slotIdx) f.slotIdx) ≠ 0 ∧
    (getMarked (m.hashTable 0 f.slotIdx) = true → Stuck cfg m 0 f.slotIdx)

/-- A relocation alone does not return from here. -/
def RelocateFrame.Blocked (f : RelocateFrame) (cfg : Config) (m : Memory) : Prop :=
  (∃ d, f.Looks d ∧ Stuck cfg m f.tableIdx f.slotIdx) ∨ f.Circles cfg m

inductive Rounded (cfg : Config) (m : Memory) (f : RelocateFrame) (level : Int) (n : Memory) :
    Flow RelocateFrame Bool → Prop where
  | failed (still : n.slack cfg < m.slack cfg ∨ n.hashTable = m.hashTable) :
      Rounded cfg m f level n (.returned false)
  | relocated (less : n.slack cfg < m.slack cfg) : Rounded cfg m f level n (.returned true)
  | nothing (table : n.hashTable = m.hashTable)
      (empty : level = 0 → getRealPointer (m.hashTable f.tableIdx f.slotIdx) = 0) :
      Rounded cfg m f level n (.returned true)
  | again (tidy : n.Tidy cfg) (less : n.slack cfg < m.slack cfg) {g : RelocateFrame}
      (slot : cfg.Slot g.tableIdx g.slotIdx) (index : g.slotIdx = f.slotIdx) (level' : Int) :
      Rounded cfg m f level n (.running (g.pathDiscovery level'))
  | blocked {g : RelocateFrame} (blocked : g.Blocked cfg n) : Rounded cfg m f level n (.running g)

theorem Rounded.leave (tidy : n.Tidy cfg) (less : n.slack cfg < m.slack cfg) (leaves : g.Leaves flow)
    (slot : cfg.Slot g.tableIdx g.slotIdx) (index : g.slotIdx = f.slotIdx) :
    Rounded cfg m f level n flow := by
  rcases leaves with rfl | ⟨level',rfl⟩
  · exact .relocated less
  · exact .again tidy less slot index level'

theorem sourceIdx_cleared (route : g.route = List.replicate numMaxKicks 0) (depth : Int) :
    g.sourceIdx depth = 0 := by
  rw [RelocateFrame.sourceIdx,route,List.getD_eq_getElem?_getD,List.getElem?_replicate]
  split <;> rfl

/-- The discovery ended where it began: the traversal runs over the cleared route. -/
theorem round_cleared (tidy : m.Tidy cfg) (slot : cfg.Slot g.tableIdx g.slotIdx)
    (route : g.route = List.replicate numMaxKicks 0) (index : g.slotIdx = f.slotIdx)
    (empty : getRealPointer (m.hashTable f.tableIdx f.slotIdx) = 0)
    (moves : ¬(f.pathDiscovery level).Circles cfg m) :
    Ends (relocate cfg tid) (Rounded cfg m f level) m (g.iterate (level - 1) (level - 1)) := by
  have source := sourceIdx_cleared route (level - 1)
  have zero : cfg.Slot (g.sourceIdx (level - 1)) g.slotIdx := ⟨source ▸ cfg.positive,slot.2⟩
  by_cases gone : getRealPointer (g.source m (level - 1)) = 0
  · refine (traversal_skips zero tidy gone (level - 1)).mono ?_
    rintro n flow ⟨rfl,table⟩
    exact .nothing table fun _ => empty
  · by_cases more : 0 ≤ level - 1
    · refine (traversal_gains zero tidy gone ?_ more).mono ?_
      · intro full stands
        simp only [RelocateFrame.source,source,index] at gone full stands
        exact moves ⟨level,by omega,rfl,rfl,empty,gone,full,stands⟩
      · rintro n flow ⟨kept,less,leaves⟩
        exact .leave kept less leaves slot index
    · rw [iterate_over g _ (by omega)]
      exact .here (.nothing rfl fun _ => empty)

/-- The discovery followed a path of unmarked entries: the last one moves. -/
theorem round_path (tidy : m.Tidy cfg) (slot : cfg.Slot g.tableIdx g.slotIdx)
    (source : cfg.Slot (g.sourceIdx (d - 1)) g.slotIdx) (index : g.slotIdx = f.slotIdx)
    (present : getRealPointer (g.source m (d - 1)) ≠ 0)
    (leads : m.alternate cfg (g.sourceIdx (d - 1)) g.slotIdx = g.tableIdx)
    (empty : getRealPointer (m.hashTable g.tableIdx g.slotIdx) = 0) (further : level < d) :
    Ends (relocate cfg tid) (Rounded cfg m f level) m (g.iterate (d - 1) (d - 1)) := by
  by_cases more : 0 ≤ d - 1
  · refine (traversal_gains source tidy present ?_ more).mono ?_
    · intro full
      rw [leads] at full
      exact absurd empty full
    · rintro n flow ⟨kept,less,leaves⟩
      exact .leave kept less leaves slot index
  · rw [iterate_over g _ (by omega)]
    exact .here (.nothing rfl (by omega))

theorem Memory.alternate_alike (same : Alike m n) (b i : Nat) :
    n.alternate cfg b i = m.alternate cfg b i := by
  simp only [Memory.alternate,same.table,same.str]

theorem RelocateFrame.Circles.alike (circles : f.Circles cfg m) (same : Alike m n) :
    f.Circles cfg n := by
  obtain ⟨level,positive,pc,route,empty,present,full,stands⟩ := circles
  refine ⟨level,positive,pc,route,?_,?_,?_,?_⟩
  · rwa [same.table]
  · rwa [same.table]
  · rwa [Memory.alternate_alike same,same.table]
  · rw [same.table]
    exact fun marked => (stands marked).alike same

theorem Rounded.alike (outcome : Rounded cfg n f level later flow) (same : Alike m n) :
    Rounded cfg m f level later flow := by
  have left : n.slack cfg = m.slack cfg := slack_table same.table
  cases outcome with
  | failed still =>
    rw [left,same.table] at still
    exact .failed still
  | relocated less => exact .relocated (less.trans_eq left)
  | nothing table empty => exact .nothing (table.trans same.table) (same.table ▸ empty)
  | again tidy less slot index level' => exact .again tidy (less.trans_eq left) slot index level'
  | blocked blocked => exact .blocked blocked

theorem relocate_round (tidy : m.Tidy cfg) (slot : cfg.Slot f.tableIdx f.slotIdx) (level : Int) :
    Ends (relocate cfg tid) (Rounded cfg m f level) m (.running (f.pathDiscovery level)) := by
  by_cases circles : (f.pathDiscovery level).Circles cfg m
  · exact .here (.blocked (.inr circles))
  have start : (f.pathDiscovery level).Known cfg m m (f.pathDiscovery level) level level := by
    refine ⟨tidy,slot,rfl,?_,rfl,.inr ⟨.refl m,.inl ⟨rfl,rfl,rfl⟩⟩⟩
    intro source member
    rw [(List.mem_replicate.mp member).2]
    exact cfg.positive
  refine (discover_alone (.inl rfl) start).bind ?_
  intro n flow outcome
  cases outcome with
  | @found d g known empty =>
    have source : cfg.Slot (g.sourceIdx (d - 1)) g.slotIdx :=
      ⟨sourceIdx_lt known.route _,known.slot.2⟩
    rcases known.path with gained | ⟨alike,⟨rfl,route,bucket⟩ | ⟨further,path⟩⟩
    · refine (traversal_ends source known.tidy (d - 1)).mono ?_
      rintro later flow ⟨kept,still,leaves⟩
      exact .leave kept (lt_of_le_of_lt still gained.2) leaves known.slot known.index
    · have moves : ¬(f.pathDiscovery d).Circles cfg n := fun again => circles (again.alike alike.symm)
      refine (round_cleared (f := f) known.tidy known.slot route known.index ?_ moves).mono ?_
      · rwa [bucket,known.index] at empty
      · exact fun _ _ rounded => rounded.alike alike
    · obtain ⟨present,-,leads⟩ := path List.length_replicate
      refine (round_path (f := f) known.tidy known.slot source known.index ?_ ?_ empty further).mono ?_
      · rwa [RelocateFrame.source,alike.table]
      · rwa [Memory.alternate_alike alike]
      · exact fun _ _ rounded => rounded.alike alike
  | ended path =>
    refine .here (.failed ?_)
    exact path.imp And.right Alike.table
  | blocked looks stuck => exact .here (.blocked (.inl ⟨_,looks,stuck⟩))

/-- A relocation alone has returned, changing nothing it was not asked for unless it
raised a counter; or it is blocked. -/
inductive Relocated (cfg : Config) (m : Memory) (f : RelocateFrame) (level : Int) (n : Memory) :
    Flow RelocateFrame Bool → Prop where
  | gained (less : n.slack cfg < m.slack cfg) : Relocated cfg m f level n (.returned result)
  | idle (table : n.hashTable = m.hashTable)
      (empty : result = true → level = 0 → getRealPointer (m.hashTable f.tableIdx f.slotIdx) = 0) :
      Relocated cfg m f level n (.returned result)
  | blocked {g : RelocateFrame} (blocked : g.Blocked cfg n) : Relocated cfg m f level n (.running g)

/-- A relocation alone, from the start of a discovery. Every restart has moved something. -/
theorem relocate_alone (tidy : m.Tidy cfg) (slot : cfg.Slot f.tableIdx f.slotIdx) (level : Int) :
    Ends (relocate cfg tid) (Relocated cfg m f level) m (.running (f.pathDiscovery level)) := by
  induction size : m.slack cfg using Nat.strongRecOn generalizing m f level with
  | ind left ih =>
    refine (relocate_round tidy slot level).bind ?_
    intro n flow outcome
    cases outcome with
    | failed still =>
      refine .here ?_
      rcases still with less | table
      · exact .gained less
      · exact .idle table (by simp)
    | relocated less => exact .here (.gained less)
    | nothing table empty => exact .here (.idle table fun _ => empty)
    | @again tidy' less g slot' index level' =>
      refine (ih _ (size ▸ less) tidy' slot' level' rfl).mono ?_
      intro later flow outcome
      cases outcome with
      | gained less' => exact .gained (less'.trans less)
      | idle table => exact .gained (by rwa [slack_table table])
      | blocked blocked => exact .blocked blocked
    | blocked blocked => exact .here (.blocked blocked)

theorem look_stays (tidy : m.Tidy cfg) (slot : cfg.Slot f.tableIdx f.slotIdx) (looks : f.Looks d)
    (stuck : Stuck cfg m f.tableIdx f.slotIdx) :
    Ends (relocate cfg tid) (fun n flow => ∃ g, flow = .running g ∧ RelocateFrame.Blocked g cfg n)
      (relocate cfg tid m f).1 (relocate cfg tid m f).2 := by
  refine (look_read tidy looks slot).mono ?_
  intro n flow outcome
  cases outcome with
  | found table empty => exact absurd empty stuck.1.2
  | followed table present unmarked => exact absurd stuck.1.1 (by simp [unmarked])
  | ended table unmarked => exact absurd stuck.1.1 (by simp [unmarked])
  | helped marked loose => exact absurd stuck loose
  | blocked same _ => exact ⟨_,rfl,.inl ⟨d,.inr rfl,stuck.alike same⟩⟩

theorem circle_stays (tidy : m.Tidy cfg) (slot : cfg.Slot f.tableIdx f.slotIdx)
    (circles : f.Circles cfg m) :
    Ends (relocate cfg tid) (fun n flow => ∃ g, flow = .running g ∧ RelocateFrame.Blocked g cfg n)
      (relocate cfg tid m f).1 (relocate cfg tid m f).2 := by
  obtain ⟨level,positive,pc,route,empty,present,full,stands⟩ := id circles
  have source : f.sourceIdx (level - 1) = 0 := sourceIdx_cleared route (level - 1)
  refine (((look_read tidy (.inl pc) slot).steady (relocate_steady cfg tid)).bind ?_)
  rintro n flow ⟨outcome,steady⟩
  cases outcome with
  | found table _ =>
    have same : Alike m n := ⟨table,steady.heap.trans (relocate_steady cfg tid m f).heap⟩
    have again := circles.alike same
    obtain ⟨_,-,-,-,_,present',full',stands'⟩ := id again
    rw [iterate_next f _ (by omega)]
    have turn : Ends (relocate cfg tid) (Traversed cfg n f (level - 1) (level - 1)) n
        (.running (f.goto (.traverse (level - 1) (level - 1)))) :=
      traverse_alone (tidy.table table) ⟨source ▸ cfg.positive,slot.2⟩ _
    refine (turn.steady (relocate_steady cfg tid)).mono ?_
    rintro later flow ⟨outcome,steady'⟩
    cases outcome with
    | skipped _ gone => rw [RelocateFrame.source,source] at gone; exact absurd gone present'
    | moved _ _ _ vacant => rw [source] at vacant; exact absurd vacant full'
    | helped marked loose =>
      rw [RelocateFrame.source,source] at marked
      rw [source] at loose
      exact absurd (stands' marked) loose
    | refused table' =>
      refine ⟨_,rfl,.inr ?_⟩
      rw [sub_add_cancel]
      have circled : (f.pathDiscovery level).Circles cfg m :=
        ⟨level,positive,rfl,rfl,empty,present,full,stands⟩
      exact circled.alike (same.trans ⟨table',steady'.heap⟩)
  | followed table occupied => exact absurd empty occupied
  | ended table _ occupied => exact absurd empty occupied
  | helped marked => exact absurd empty (tidy _ _ slot marked)
  | blocked same stuck => exact absurd empty stuck.1.2

theorem relocate_stays (tidy : m.Tidy cfg) (slot : cfg.Slot f.tableIdx f.slotIdx)
    (blocked : f.Blocked cfg m) :
    Ends (relocate cfg tid) (fun n flow => ∃ g, flow = .running g ∧ RelocateFrame.Blocked g cfg n)
      (relocate cfg tid m f).1 (relocate cfg tid m f).2 := by
  rcases blocked with ⟨d,looks,stuck⟩ | circles
  · exact look_stays tidy slot looks stuck
  · exact circle_stays tidy slot circles

/-- A relocation has returned, or does not. -/
def Finishes (cfg : Config) (n : Memory) (flow : Flow RelocateFrame Bool) : Prop :=
  (∃ result, flow = .returned result) ∨ ∃ g, flow = .running g ∧ RelocateFrame.Blocked g cfg n

theorem leaves_finishes (tidy : m.Tidy cfg) (slot : cfg.Slot f.tableIdx f.slotIdx)
    (leaves : f.Leaves flow) : Ends (relocate cfg tid) (Finishes cfg) m flow := by
  rcases leaves with rfl | ⟨level,rfl⟩
  · exact .here (.inl ⟨_,rfl⟩)
  · refine (relocate_alone tidy slot level).mono ?_
    intro n flow outcome
    cases outcome with
    | gained => exact .inl ⟨_,rfl⟩
    | idle => exact .inl ⟨_,rfl⟩
    | blocked blocked => exact .inr ⟨_,rfl,blocked⟩

theorem traversal_finishes (tidy : m.Tidy cfg) (inside : f.Inside cfg) (depth i : Int) :
    Ends (relocate cfg tid) (Finishes cfg) m (f.iterate depth i) := by
  refine (traversal_ends ⟨sourceIdx_lt inside.2.1 depth,inside.1.2⟩ tidy i).bind ?_
  rintro n flow ⟨kept,-,leaves⟩
  exact leaves_finishes kept inside.1 leaves

theorem onward_finishes (tidy : m.Tidy cfg) (inside : f.Inside cfg) (onward : f.Onward depth i flow) :
    Ends (relocate cfg tid) (Finishes cfg) m flow := by
  rcases onward with rfl | rfl
  · exact traversal_finishes tidy inside _ _
  · exact leaves_finishes tidy inside.1 (.inr ⟨_,rfl⟩)

theorem look_finishes (tidy : m.Tidy cfg) (inside : f.Inside cfg) (looks : f.Looks d) :
    Ends (relocate cfg tid) (Finishes cfg) m (.running f) := by
  have start : f.Known cfg m m f d d :=
    ⟨tidy,inside.1,rfl,inside.2.1,rfl,.inr ⟨.refl m,.inl ⟨rfl,rfl,rfl⟩⟩⟩
  refine (discover_alone looks start).bind ?_
  intro n flow outcome
  cases outcome with
  | @found d g known empty =>
    refine (traversal_ends ⟨sourceIdx_lt known.route _,known.slot.2⟩ known.tidy (d - 1)).bind ?_
    rintro later flow ⟨kept,-,leaves⟩
    exact leaves_finishes kept known.slot leaves
  | ended path => exact .here (.inl ⟨_,rfl⟩)
  | blocked looks stuck => exact .here (.inr ⟨_,rfl,.inl ⟨_,looks,stuck⟩⟩)

theorem Traversed.onward (outcome : Traversed cfg m f depth i n flow) (tidy : m.Tidy cfg) :
    n.Tidy cfg ∧ f.Onward depth i flow := by
  cases outcome with
  | skipped table empty => exact ⟨tidy.table table,.inl rfl⟩
  | moved present unmarked outcome vacant =>
    exact ⟨HelpEffect.tidy (.initiated rfl unmarked present outcome) tidy,.inl rfl⟩
  | helped marked loose kept less onward => exact ⟨kept,onward⟩
  | refused table present full stands => exact ⟨tidy.table table,.inr rfl⟩

theorem dest_finishes (tidy : m.Tidy cfg) (inside : f.Inside cfg) (depth i : Int) (destIdx : Nat) :
    Ends (relocate cfg tid) (Finishes cfg) m (.running (f.goto (.traverseDest depth i destIdx))) := by
  by_cases full : getRealPointer (m.hashTable destIdx f.slotIdx) ≠ 0
  · exact .step (if_pos full) (leaves_finishes (tidy.table rfl) inside.1 (.inr ⟨_,rfl⟩))
  · refine .step (if_neg full) ?_
    refine Ends.call (fun frame => f.goto (.traverseMove depth i frame)) (f.afterMove depth i)
      (fun _ => rfl) (relocate_move cfg tid f depth i)
      (source_alone (f := .enter (f.sourceIdx depth) f.slotIdx true) (.inl rfl) ?_) ?_
    · exact tidy _ _ ⟨sourceIdx_lt inside.2.1 depth,inside.1.2⟩
    rintro n flow ⟨rfl,effect⟩
    exact traversal_finishes (effect.tidy (tidy.table rfl)) inside depth (i - 1)

theorem relocate_finishes (tidy : m.Tidy cfg) (inside : f.Inside cfg) (outside : f.help? = none) :
    Ends (relocate cfg tid) (Finishes cfg) m (.running f) := by
  have going : (relocate cfg tid m f).2.Holds (·.Inside cfg) := relocate_inside inside
  cases pc : f.pc with
  | discover d => exact look_finishes tidy inside (.inl pc)
  | discoverReread d => exact look_finishes tidy inside (.inr pc)
  | discoverDeref d ptr1 =>
    apply Ends.next
    simp only [relocate,pc] at going ⊢
    by_cases more : d + 1 < numMaxKicks
    · rw [if_pos more] at going ⊢
      exact look_finishes tidy going (.inl rfl)
    · rw [if_neg more]
      exact .here (.inl ⟨_,rfl⟩)
  | traverse d i =>
    have turn : Ends (relocate cfg tid) (Traversed cfg m f d i) m (.running (f.goto (.traverse d i))) :=
      traverse_alone tidy ⟨sourceIdx_lt inside.2.1 d,inside.1.2⟩ i
    rw [RelocateFrame.goto_self pc] at turn
    refine turn.bind ?_
    intro n flow outcome
    obtain ⟨kept,onward⟩ := outcome.onward tidy
    exact onward_finishes kept inside onward
  | traverseReread d i =>
    have turn : Ends (relocate cfg tid) (Sourced cfg m f d i) m (f.sourced d i (f.source m d)) :=
      sourced_alone (.refl m) tidy ⟨sourceIdx_lt inside.2.1 d,inside.1.2⟩ i
    apply Ends.next
    simp only [relocate,pc]
    refine turn.bind ?_
    intro n flow outcome
    obtain ⟨kept,-,onward⟩ := outcome.onward tidy ⟨sourceIdx_lt inside.2.1 d,inside.1.2⟩
    exact onward_finishes kept inside onward
  | traverseDeref d i sourcePtr =>
    apply Ends.next
    simp only [relocate,pc]
    exact dest_finishes tidy inside d i _
  | traverseDest d i destIdx =>
    have turn : Ends (relocate cfg tid) (Finishes cfg) m
        (.running (f.goto (.traverseDest d i destIdx))) := dest_finishes tidy inside d i destIdx
    rwa [RelocateFrame.goto_self pc] at turn
  | discoverHelp d frame | traverseHelp d i frame | traverseMove d i frame =>
    simp [RelocateFrame.help?,pc] at outside

theorem relocate_leaves_help (tidy : m.Tidy cfg) (inside : f.Inside cfg) (call : f.help? = some frame)
    (formed : frame.Formed cfg m) :
    Ends (relocate cfg tid) (fun _ flow => (∃ result, flow = .returned result) ∨
      ∃ g, flow = .running g ∧ g.help? = none) m (.running f) := by
  have ends : Ends (helpRelocate cfg tid) (fun _ flow => flow = .returned ()) m (.running frame) :=
    help_ends formed (tidy _ _ (inside.2.2 frame call))
  cases pc : f.pc with
  | discoverHelp d frame' =>
    obtain rfl : frame' = frame := by simpa [RelocateFrame.help?,pc] using call
    rw [← RelocateFrame.goto_self pc]
    refine Ends.call (fun frame => f.goto (.discoverHelp d frame)) (f.afterDiscoverHelp d)
      (fun _ => rfl) (relocate_discoverHelp cfg tid f d) ends ?_
    rintro n flow rfl
    exact .here (.inr ⟨_,rfl,rfl⟩)
  | traverseHelp d i frame' =>
    obtain rfl : frame' = frame := by simpa [RelocateFrame.help?,pc] using call
    rw [← RelocateFrame.goto_self pc]
    refine Ends.call (fun frame => f.goto (.traverseHelp d i frame)) (f.afterTraverseHelp d i)
      (fun _ => rfl) (relocate_traverseHelp cfg tid f d i) ends ?_
    rintro n flow rfl
    exact .here (.inr ⟨_,rfl,rfl⟩)
  | traverseMove d i frame' =>
    obtain rfl : frame' = frame := by simpa [RelocateFrame.help?,pc] using call
    rw [← RelocateFrame.goto_self pc]
    refine Ends.call (fun frame => f.goto (.traverseMove d i frame)) (f.afterMove d i)
      (fun _ => rfl) (relocate_move cfg tid f d i) ends ?_
    rintro n flow rfl
    refine .here ?_
    simp only [RelocateFrame.afterMove,RelocateFrame.iterate]
    split
    · exact .inr ⟨_,rfl,rfl⟩
    · exact .inl ⟨_,rfl⟩
  | _ => simp [RelocateFrame.help?,pc] at call

end CuckooFilter.LockFree
