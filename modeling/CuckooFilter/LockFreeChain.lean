import CuckooFilter.Chain
import CuckooFilter.LockFreeSoloRelocate

/-! What a relocation alone does to a table without marks. Its discovery follows the
chain of one slot index to the first empty bucket, and its traversal moves the last
entry on the way there, and no other. -/
namespace CuckooFilter.LockFree

variable {cfg : Config} {tid : Nat} {m n now : Memory} {b i : Nat}

def Memory.Unmarked (cfg : Config) (m : Memory) : Prop :=
  ∀ b i, cfg.Slot b i → getMarked (m.hashTable b i) = false

theorem Memory.Unmarked.tidy (unmarked : m.Unmarked cfg) : m.Tidy cfg := by
  intro b i slot marked
  rw [unmarked b i slot] at marked
  contradiction

theorem Memory.Unmarked.table (unmarked : m.Unmarked cfg) (same : n.hashTable = m.hashTable) :
    n.Unmarked cfg := by
  rw [Memory.Unmarked,same]
  exact unmarked

/-- One entry has gone from slot `i` of bucket `b` to its other bucket. -/
structure Shifted (cfg : Config) (m n : Memory) (b i : Nat) : Prop where
  slot : cfg.Slot b i
  present : getRealPointer (m.hashTable b i) ≠ 0
  vacant : getRealPointer (m.hashTable (m.alternate cfg b i) i) = 0
  source : getRealPointer (n.hashTable b i) = 0 ∧ getMarked (n.hashTable b i) = false
  target : getRealPointer (n.hashTable (m.alternate cfg b i) i) =
      getRealPointer (m.hashTable b i) ∧ getMarked (n.hashTable (m.alternate cfg b i) i) = false
  others : ∀ b' i', ¬(b' = b ∧ i' = i) → ¬(b' = m.alternate cfg b i ∧ i' = i) →
    n.hashTable b' i' = m.hashTable b' i'
  heap : n.heap = m.heap

theorem Shifted.alike (shifted : Shifted cfg m n b i) (before : Alike m' m) (after : Alike n n') :
    Shifted cfg m' n' b i := by
  obtain ⟨slot,present,vacant,source,target,others,heap⟩ := shifted
  have bucket : m.alternate cfg b i = m'.alternate cfg b i := by
    simp only [Memory.alternate,before.table,before.str]
  rw [bucket,before.table] at vacant
  rw [before.table] at present
  rw [← after.table] at source
  rw [bucket,before.table,← after.table] at target
  rw [bucket,before.table,← after.table] at others
  exact ⟨slot,present,vacant,source,target,others,after.heap.trans (heap.trans before.heap)⟩

theorem Shifted.apart (shifted : Shifted cfg m n b i) : m.alternate cfg b i ≠ b := by
  intro same
  have vacant := shifted.vacant
  rw [same] at vacant
  exact shifted.present vacant

/-- An initiator that finds its destination empty moves its entry. -/
theorem initiated_shifts (slot : cfg.Slot b i) (present : getRealPointer (m.hashTable b i) ≠ 0)
    (vacant : getRealPointer (m.hashTable (m.alternate cfg b i) i) = 0)
    (outcome : Settled cfg (m.write b i (getNewMark (m.hashTable b i) true)) b i n)
    (heap : n.heap = m.heap) : Shifted cfg m n b i := by
  have apart : m.alternate cfg b i ≠ b := by
    intro same
    rw [same] at vacant
    exact present vacant
  have reading : (m.write b i (getNewMark (m.hashTable b i) true)).hashTable
      (m.alternate cfg b i) i = m.hashTable (m.alternate cfg b i) i := by
    rw [Memory.write_table,if_neg (by simp [apart])]
  cases outcome with
  | @moved word empty _ created emptied table =>
    rw [mark_alternate] at created table
    refine ⟨slot,present,vacant,⟨?_,?_⟩,⟨?_,?_⟩,?_,heap⟩
    · simp [table,Memory.write_table,createPointer_real emptied null_fits]
    · simp [table,Memory.write_table,createPointer_marked emptied null_fits]
    · simp [table,Memory.write_table,apart,createPointer_real created (getRealPointer_fits _)]
    · simp [table,Memory.write_table,apart,createPointer_marked created (getRealPointer_fits _)]
    · intro b' i' here there
      simp [table,Memory.write_table,here,there]
  | erased same =>
    rw [mark_alternate,reading] at same
    rw [same] at vacant
    simp [Memory.write_table] at vacant
    exact absurd vacant present
  | stuck full =>
    rw [mark_alternate,reading] at full
    exact absurd vacant full

/-- The chain of slot `i` from bucket `b` first meets an empty slot after `d` hops. -/
abbrev Leads (cfg : Config) (m : Memory) (b i d : Nat) : Prop :=
  Chain.Reaches (m.alternate cfg · i) (fun c => getRealPointer (m.hashTable c i) = 0) b d

/-- The bucket after `j` hops. -/
abbrev Memory.hop (cfg : Config) (m : Memory) (b i j : Nat) : Nat := (m.alternate cfg · i)^[j] b

theorem hop_succ (cfg : Config) (m : Memory) (b i j : Nat) :
    m.hop cfg b i (j + 1) = m.alternate cfg (m.hop cfg b i j) i :=
  Function.iterate_succ_apply' _ _ _

theorem hop_lt (slot : cfg.Slot b i) (m : Memory) (j : Nat) : m.hop cfg b i j < cfg.tableSize := by
  cases j with
  | zero => exact slot.1
  | succ j =>
    rw [hop_succ]
    exact alternate_lt cfg m _ i

theorem leads_alike (same : Alike m n) : Leads cfg n b i d ↔ Leads cfg m b i d := by
  simp only [Leads,Memory.alternate_alike same,same.table]

/-- A discovery that has followed `d` entries from bucket `b`. -/
structure RelocateFrame.Along (f : RelocateFrame) (cfg : Config) (m : Memory) (b i d : Nat) :
    Prop where
  bucket : f.tableIdx = m.hop cfg b i d
  slot : f.slotIdx = i
  source : d ≠ 0 → f.sourceIdx (d - 1) = m.hop cfg b i (d - 1)
  length : f.route.length = numMaxKicks
  occupied : ∀ j < d, getRealPointer (m.hashTable (m.hop cfg b i j) i) ≠ 0

/-- The outcomes of a discovery of a table without marks. -/
inductive Followed (cfg : Config) (m : Memory) (b i : Nat) : Flow RelocateFrame Bool → Prop where
  | found {f : RelocateFrame} (inside : d < numMaxKicks) (along : f.Along cfg m b i d)
      (leads : Leads cfg m b i d) : Followed cfg m b i (f.iterate (d - 1) (d - 1))
  | ended (full : ∀ j < numMaxKicks, getRealPointer (m.hashTable (m.hop cfg b i j) i) ≠ 0) :
      Followed cfg m b i (.returned false)

theorem discover_unmarked (unmarked : m.Unmarked cfg) (slot : cfg.Slot b i) {f : RelocateFrame} {d : Nat}
    (pc : f.pc = .discover d) (along : f.Along cfg m b i d) (inside : d < numMaxKicks)
    (same : Alike m n) :
    Ends (relocate cfg tid) (fun n flow => Alike m n ∧ Followed cfg m b i flow) n (.running f) := by
  induction left : numMaxKicks - d generalizing f d n with
  | zero => omega
  | succ k ih =>
    obtain ⟨bucket,index,source,length,occupied⟩ := along
    have here : cfg.Slot f.tableIdx f.slotIdx := by
      rw [bucket,index]
      exact ⟨hop_lt slot m d,slot.2⟩
    have tidy : n.Tidy cfg := unmarked.tidy.table same.table
    refine ((look_alone tidy (.inl pc) here).steady (relocate_steady cfg tid)).bind ?_
    rintro later flow ⟨outcome,steady⟩
    have whole (table : later.hashTable = n.hashTable) : Alike m later :=
      same.trans ⟨table,steady.heap⟩
    cases outcome with
    | found table empty =>
      rw [bucket,index,same.table] at empty
      exact .here ⟨whole table,.found inside ⟨bucket,index,source,length,occupied⟩
        ⟨empty,occupied⟩⟩
    | followed table present _ more =>
      rw [bucket,index,same.table] at present
      have further : (f.follow cfg n d).Along cfg m b i (d + 1) := by
        refine ⟨?_,index,fun _ => ?_,?_,?_⟩
        · rw [hop_succ,← Memory.alternate_alike same,← bucket,← index]
          rfl
        · rw [Nat.add_sub_cancel,← bucket]
          exact follow_source length more
        · simpa [RelocateFrame.follow] using length
        · intro j early
          rcases Nat.lt_succ_iff_lt_or_eq.mp early with earlier | rfl
          · exact occupied j earlier
          · exact present
      exact ih (f := f.follow cfg n d) (d := d + 1) rfl further (by omega) (whole table) (by omega)
    | ended table _ present deepest =>
      rw [bucket,index,same.table] at present
      refine .here ⟨whole table,.ended fun j early => ?_⟩
      rcases Nat.lt_or_ge j d with earlier | reached
      · exact occupied j earlier
      · obtain rfl : j = d := by omega
        exact present
    | helped marked =>
      rw [same.table,unmarked _ _ here] at marked
      contradiction
    | blocked _ stuck =>
      have marked := stuck.1.1
      rw [same.table,unmarked _ _ here] at marked
      contradiction

/-- The answers of a relocation of slot `i` of bucket `b`: the chain is too long, has no
entry, or gives up its last one. -/
inductive Kicked (cfg : Config) (m : Memory) (b i : Nat) (n : Memory) :
    Flow RelocateFrame Bool → Prop where
  | refused (same : Alike m n) (far : ∀ d < numMaxKicks, ¬Leads cfg m b i d) :
      Kicked cfg m b i n (.returned false)
  | vacant (same : Alike m n) (empty : getRealPointer (m.hashTable b i) = 0) :
      Kicked cfg m b i n (.returned true)
  | shifted (inside : d + 1 < numMaxKicks) (leads : Leads cfg m b i (d + 1))
      (shifted : Shifted cfg m n (m.hop cfg b i d) i) (less : n.slack cfg < m.slack cfg) :
      Kicked cfg m b i n (.returned true)

theorem traversal_shifts (unmarked : m.Unmarked cfg) (slot : cfg.Slot b i) {f : RelocateFrame} {d : Nat}
    (along : f.Along cfg m b i (d + 1)) (leads : Leads cfg m b i (d + 1)) (same : Alike m now) :
    Ends (relocate cfg tid) (fun n flow => flow = .returned true ∧
      Shifted cfg m n (m.hop cfg b i d) i ∧ n.slack cfg < m.slack cfg) now
      (f.iterate d d) := by
  have source : f.sourceIdx d = m.hop cfg b i d := by
    simpa using along.source (by omega)
  have bucket : cfg.Slot (f.sourceIdx d) f.slotIdx := by
    rw [source,along.slot]
    exact ⟨hop_lt slot m d,slot.2⟩
  have again : now.Unmarked cfg := unmarked.table same.table
  have present : getRealPointer (f.source now d) ≠ 0 := by
    rw [RelocateFrame.source,same.table,source,along.slot]
    exact along.occupied d (by omega)
  have vacant : getRealPointer (now.hashTable (now.alternate cfg (f.sourceIdx d) f.slotIdx)
      f.slotIdx) = 0 := by
    rw [Memory.alternate_alike same,same.table,source,along.slot,← hop_succ]
    exact leads.1
  rw [iterate_next f _ (by omega)]
  refine ((traverse_alone again.tidy bucket d).steady (relocate_steady cfg tid)).bind ?_
  rintro later flow ⟨outcome,steady⟩
  cases outcome with
  | skipped _ gone => exact absurd gone present
  | moved _ _ outcome _ =>
    have shifted : Shifted cfg now later (f.sourceIdx d) f.slotIdx :=
      initiated_shifts bucket present vacant outcome steady.heap
    have kept : later.Tidy cfg := outcome.tidy (again.tidy.write (fun _ => by simpa using present) _ _)
    refine ((traversal_skips bucket kept shifted.source.1 (d - 1)).steady
      (relocate_steady cfg tid)).mono ?_
    rintro last flow ⟨⟨rfl,table⟩,steady'⟩
    have whole := shifted.alike same ⟨table,steady'.heap⟩
    rw [source,along.slot] at whole
    refine ⟨rfl,whole,?_⟩
    rw [slack_table table,← slack_table same.table]
    exact initiated_moves present vacant outcome bucket
  | helped marked =>
    rw [RelocateFrame.source,again _ _ bucket] at marked
    contradiction
  | refused _ _ full => exact absurd vacant full

/-- A relocation of a table without marks moves the last entry of its chain. -/
theorem relocate_unmarked (unmarked : m.Unmarked cfg) (slot : cfg.Slot b i) :
    Ends (relocate cfg tid) (Kicked cfg m b i) m (.running (.enter b i)) := by
  have start : (RelocateFrame.enter b i).Along cfg m b i 0 :=
    ⟨rfl,rfl,fun zero => absurd rfl zero,List.length_replicate,fun _ early => absurd early (by omega)⟩
  refine (discover_unmarked (d := 0) unmarked slot rfl start (by decide) (.refl m)).bind ?_
  rintro n flow ⟨same,outcome⟩
  cases outcome with
  | ended full => exact .here (.refused same fun d inside leads => full d inside leads.1)
  | @found d f inside along leads =>
    cases d with
    | zero =>
      rw [iterate_over f _ (by omega)]
      exact .here (.vacant same leads.1)
    | succ d =>
      have path : f.iterate ((d + 1 : Nat) - 1) ((d + 1 : Nat) - 1) = f.iterate d d := by
        simp
      rw [path]
      refine (traversal_shifts unmarked slot along leads same).mono ?_
      rintro later flow ⟨rfl,shifted,less⟩
      exact .shifted inside leads shifted less

theorem Shifted.shortens (shifted : Shifted cfg m n (m.hop cfg b i d) i)
    (leads : Leads cfg m b i (d + 1)) : Leads cfg n b i d := by
  have words (j : Nat) (early : j < d) :
      n.hashTable (m.hop cfg b i j) i = m.hashTable (m.hop cfg b i j) i := by
    have here : m.hop cfg b i j ≠ m.hop cfg b i d := leads.distinct early (by omega)
    have there : m.hop cfg b i j ≠ m.hop cfg b i (d + 1) := leads.distinct (by omega) le_rfl
    refine shifted.others _ i (by simp [here]) ?_
    rw [← hop_succ]
    simp [there]
  have str : n.str = m.str := by
    funext entry
    simp only [Memory.str,shifted.heap]
  refine Chain.Reaches.change ?_ shifted.source.1 ?_
  · intro j early
    rw [Memory.alternate,words j early,str,Memory.alternate]
  · intro j early
    rw [words j early]
    exact leads.2 j (by omega)

end CuckooFilter.LockFree
