import CuckooFilter.LockFreeSlack

/-! A search alone. It returns where it finds the key, passes a slot index when
neither candidate slot has it, and turns back only after helping a marked slot. -/
namespace CuckooFilter.LockFree

variable {cfg : Config} {tid : Nat} {m n : Memory} {f : FindFrame}

def Misses (m : Memory) (fingerprint : Bytes) (b i : Nat) : Prop :=
  getRealPointer (m.hashTable b i) = 0 ∨
    getMarked (m.hashTable b i) = false ∧ fingerprint ≠ m.str (getRealPointer (m.hashTable b i))

def Hits (m : Memory) (fingerprint : Bytes) (b i : Nat) : Prop :=
  getRealPointer (m.hashTable b i) ≠ 0 ∧ getMarked (m.hashTable b i) = false ∧
    fingerprint = m.str (getRealPointer (m.hashTable b i))

theorem slot_cases (m : Memory) (fingerprint : Bytes) (b i : Nat) :
    Misses m fingerprint b i ∨ Hits m fingerprint b i ∨
      getMarked (m.hashTable b i) = true ∧ getRealPointer (m.hashTable b i) ≠ 0 := by
  by_cases present : getRealPointer (m.hashTable b i) = 0
  · exact .inl (.inl present)
  · cases marked : getMarked (m.hashTable b i) with
    | true => exact .inr (.inr ⟨rfl,present⟩)
    | false =>
      by_cases same : fingerprint = m.str (getRealPointer (m.hashTable b i))
      · exact .inr (.inl ⟨present,marked,same⟩)
      · exact .inl (.inr ⟨marked,same⟩)

/-- The search stands before a marked slot that no help changes. -/
def FindFrame.Blocked (cfg : Config) (m : Memory) (f : FindFrame) : Prop :=
  f.pc = .readFirst ∧ (Stuck cfg m f.hash1 f.slot ∨
    Misses m f.fingerprint f.hash1 f.slot ∧ Stuck cfg m f.hash2 f.slot)

theorem blocked_first (marked : getMarked (m.hashTable f.hash1 f.slot) = true)
    (present : getRealPointer (m.hashTable f.hash1 f.slot) ≠ 0) :
    (f.goto .readFirst).Blocked cfg m ↔ Stuck cfg m f.hash1 f.slot := by
  refine ⟨?_,fun stuck => ⟨rfl,.inl stuck⟩⟩
  rintro ⟨-,stuck | ⟨empty | ⟨unmarked,-⟩,-⟩⟩
  · exact stuck
  · exact absurd empty present
  · exact absurd marked (by simpa [FindFrame.goto] using unmarked)

theorem blocked_second (missed : Misses m f.fingerprint f.hash1 f.slot) :
    (f.goto .readFirst).Blocked cfg m ↔ Stuck cfg m f.hash2 f.slot := by
  refine ⟨?_,fun stuck => ⟨rfl,.inr ⟨missed,stuck⟩⟩⟩
  rintro ⟨-,stuck | ⟨-,stuck⟩⟩
  · rcases missed with empty | ⟨unmarked,-⟩
    · exact absurd empty stuck.1.2
    · exact absurd stuck.1.1 (by simpa [FindFrame.goto] using unmarked)
  · exact stuck

/-- The outcomes of one slot index of a search alone. -/
inductive Searched (cfg : Config) (m : Memory) (f : FindFrame) (n : Memory) :
    Flow FindFrame (Nat × TablePointer) → Prop where
  | first (table : n.hashTable = m.hashTable) (hits : Hits m f.fingerprint f.hash1 f.slot) :
      Searched cfg m f n (.returned (f.slot,m.hashTable f.hash1 f.slot))
  | second (table : n.hashTable = m.hashTable) (missed : Misses m f.fingerprint f.hash1 f.slot)
      (hits : Hits m f.fingerprint f.hash2 f.slot) :
      Searched cfg m f n
        (.returned (f.slot + numItemsPerEntry,m.hashTable f.hash2 f.slot))
  | passed (table : n.hashTable = m.hashTable) (first : Misses m f.fingerprint f.hash1 f.slot)
      (second : Misses m f.fingerprint f.hash2 f.slot) : Searched cfg m f n f.nextSlot
  | helped (marked : getMarked (m.hashTable b f.slot) = true)
      (loose : ¬(f.goto .readFirst).Blocked cfg m) (tidy : n.Tidy cfg)
      (less : n.slack cfg < m.slack cfg) (slot : cfg.Slot b f.slot) :
      Searched cfg m f n (.running (f.goto .readFirst))
  | blocked (table : n.hashTable = m.hashTable) (stuck : (f.goto .readFirst).Blocked cfg m) :
      Searched cfg m f n (.running (f.goto .readFirst))

/-- Where a search goes on after its call of `help_relocate`. -/
def FindFrame.afterHelp (f : FindFrame) : Flow HelpFrame Unit → Flow FindFrame (Nat × TablePointer)
  | .running frame => .running (f.goto (.help frame))
  | .returned _ => .running (f.goto .readFirst)

theorem find_help (cfg : Config) (tid : Nat) (f : FindFrame) (m : Memory) (frame : HelpFrame) :
    find cfg tid m (f.goto (.help frame)) =
      ((helpRelocate cfg tid m frame).1,f.afterHelp (helpRelocate cfg tid m frame).2) := by
  simp only [find,FindFrame.goto]
  cases helpRelocate cfg tid m frame with | mk next flow =>
  cases flow <;> rfl

/-- A call on a marked slot moves something, or finds nothing to do. -/
theorem help_slot (same : Alike m now) (tidy : m.Tidy cfg) (slot : cfg.Slot b i)
    (marked : getMarked (m.hashTable b i) = true) :
    Ends (helpRelocate cfg tid) (fun n flow => flow = .returned () ∧ n.Tidy cfg ∧
      (n.slack cfg < m.slack cfg ∧ ¬Stuck cfg m b i ∨ Stuck cfg m b i ∧ Alike m n)) now
      (.running (.enter b i false)) := by
  have moving : Relocating (now.hashTable b i) := by
    rw [same.table]
    exact tidy.relocating slot marked
  refine .mono ((marked_alone (f := .enter b i false) (.inl rfl) moving).steady
    (help_steady cfg tid)) ?_
  rintro n flow ⟨⟨rfl,outcome⟩,steady⟩
  refine ⟨rfl,outcome.tidy (tidy.table same.table),?_⟩
  rcases outcome.progress slot moving with ⟨less,loose⟩ | ⟨stuck,table⟩
  · exact .inl ⟨less.trans_eq (slack_table same.table),fun stuck => loose (stuck.alike same)⟩
  · exact .inr ⟨stuck.alike same.symm,same.trans ⟨table,steady.heap⟩⟩

theorem find_helps (same : Alike m now) (tidy : m.Tidy cfg) (slot : cfg.Slot b f.slot)
    (marked : getMarked (m.hashTable b f.slot) = true)
    (stands : (f.goto .readFirst).Blocked cfg m ↔ Stuck cfg m b f.slot) :
    Ends (find cfg tid) (Searched cfg m f) now
      (.running (f.goto (.help (.enter b f.slot false)))) := by
  refine Ends.call (fun frame => f.goto (.help frame)) f.afterHelp (fun _ => rfl)
    (find_help cfg tid f) (help_slot same tidy slot marked) ?_
  rintro n flow ⟨rfl,kept,⟨less,loose⟩ | ⟨stuck,alike⟩⟩
  · exact .here (.helped marked (mt stands.mp loose) kept less slot)
  · exact .here (.blocked alike.table (stands.mpr stuck))

/-- The counters have not moved since their first reads. -/
theorem find_recheck (same : Alike m now) (first : Misses m f.fingerprint f.hash1 f.slot)
    (second : Misses m f.fingerprint f.hash2 f.slot) :
    Ends (find cfg tid) (Searched cfg m f) now
      (.running (f.goto (.recheckFirst (getCounter (m.hashTable f.hash1 f.slot))
        (getCounter (m.hashTable f.hash2 f.slot))))) := by
  apply Ends.next
  simp only [find,FindFrame.goto]
  apply Ends.next
  simp only [find,FindFrame.goto,same.table,checkCounter,sub_self]
  exact .here (.passed same.table first second)

theorem find_second (same : Alike m now) (tidy : m.Tidy cfg) (slot : cfg.Slot f.hash2 f.slot)
    (missed : Misses m f.fingerprint f.hash1 f.slot) :
    Ends (find cfg tid) (Searched cfg m f) now
      (.running (f.goto (.readSecond (getCounter (m.hashTable f.hash1 f.slot))))) := by
  apply Ends.next
  simp only [find,FindFrame.goto,same.table]
  rcases slot_cases m f.fingerprint f.hash2 f.slot with
    (empty | ⟨unmarked,other⟩) | ⟨present,unmarked,hit⟩ | ⟨marked,present⟩
  · rw [if_pos empty]
    exact find_recheck (same.trans ⟨rfl,rfl⟩) missed (.inl empty)
  · by_cases empty : getRealPointer (m.hashTable f.hash2 f.slot) = 0
    · rw [if_pos empty]
      exact find_recheck (same.trans ⟨rfl,rfl⟩) missed (.inl empty)
    rw [if_neg empty,if_neg (by simp [unmarked])]
    apply Ends.next
    simp only [find,markHazard_str,same.str]
    rw [if_neg other]
    exact find_recheck (same.trans ⟨rfl,rfl⟩) missed (.inr ⟨unmarked,other⟩)
  · rw [if_neg present,if_neg (by simp [unmarked])]
    apply Ends.next
    simp only [find,markHazard_str,same.str]
    rw [if_pos hit]
    exact .here (.second same.table missed ⟨present,unmarked,hit⟩)
  · rw [if_neg present,if_pos marked]
    exact find_helps (same.trans ⟨rfl,rfl⟩) tidy slot marked (blocked_second missed)

theorem find_read (tidy : m.Tidy cfg) (pc : f.pc = .readFirst) (first : cfg.Slot f.hash1 f.slot)
    (second : cfg.Slot f.hash2 f.slot) :
    Ends (find cfg tid) (Searched cfg m f) (find cfg tid m f).1 (find cfg tid m f).2 := by
  simp only [find,pc]
  rcases slot_cases m f.fingerprint f.hash1 f.slot with
    (empty | ⟨unmarked,other⟩) | ⟨present,unmarked,hit⟩ | ⟨marked,present⟩
  · rw [if_pos empty]
    exact find_second ⟨rfl,rfl⟩ tidy second (.inl empty)
  · by_cases empty : getRealPointer (m.hashTable f.hash1 f.slot) = 0
    · rw [if_pos empty]
      exact find_second ⟨rfl,rfl⟩ tidy second (.inl empty)
    rw [if_neg empty,if_neg (by simp [unmarked])]
    apply Ends.next
    simp only [find,FindFrame.goto,markHazard_str,other,if_false]
    exact find_second ⟨rfl,rfl⟩ tidy second (.inr ⟨unmarked,other⟩)
  · rw [if_neg present,if_neg (by simp [unmarked])]
    exact .step (if_pos hit) (.here (.first rfl ⟨present,unmarked,hit⟩))
  · rw [if_neg present,if_pos marked]
    exact find_helps ⟨rfl,rfl⟩ tidy first marked (blocked_first marked present)

theorem find_slot (tidy : m.Tidy cfg) (pc : f.pc = .readFirst) (first : cfg.Slot f.hash1 f.slot)
    (second : cfg.Slot f.hash2 f.slot) : Ends (find cfg tid) (Searched cfg m f) m (.running f) :=
  .next (find_read tidy pc first second)

theorem Stuck.not_hits (stuck : Stuck cfg m b i) : ¬Hits m fingerprint b i :=
  fun hits => absurd stuck.1.1 (by simp [hits.2.1])

theorem Stuck.not_misses (stuck : Stuck cfg m b i) : ¬Misses m fingerprint b i := by
  rintro (empty | ⟨unmarked,-⟩)
  · exact stuck.1.2 empty
  · exact absurd stuck.1.1 (by simp [unmarked])

theorem Searched.of_blocked (outcome : Searched cfg m f n flow) (blocked : f.Blocked cfg m) :
    flow = .running (f.goto .readFirst) ∧ n.hashTable = m.hashTable := by
  cases outcome with
  | first table hits =>
    rcases blocked.2 with stuck | ⟨missed,-⟩
    · exact absurd hits stuck.not_hits
    · rcases missed with empty | ⟨-,other⟩
      · exact absurd empty hits.1
      · exact absurd hits.2.2 other
  | second table missed hits =>
    rcases blocked.2 with stuck | ⟨-,stuck⟩
    · exact absurd missed stuck.not_misses
    · exact absurd hits stuck.not_hits
  | passed table first second =>
    rcases blocked.2 with stuck | ⟨-,stuck⟩
    · exact absurd first stuck.not_misses
    · exact absurd second stuck.not_misses
  | helped marked loose => exact absurd ⟨rfl,blocked.2⟩ loose
  | blocked table => exact ⟨rfl,table⟩

def FindFrame.bucketOf (f : FindFrame) (location : Nat) : Nat :=
  if location < numItemsPerEntry then f.hash1 else f.hash2

/-- A search is over; the word it returns with a location stands there. -/
def FindFrame.Done (f : FindFrame) (n : Memory) (flow : Flow FindFrame (Nat × TablePointer)) : Prop :=
  ∃ location word, flow = .returned (location,word) ∧ (location = numItemsPerEntry * 2 ∨
    n.hashTable (f.bucketOf location) (location % numItemsPerEntry) = word)

/-- The head of the retry loop, at any slot index. -/
def FindFrame.Turns (f : FindFrame) (cfg : Config) (flow : Flow FindFrame (Nat × TablePointer)) :
    Prop :=
  ∃ i, i < numItemsPerEntry ∧ flow = .running { f with slot := i, pc := .readFirst } ∧
    f.hash1 < cfg.tableSize ∧ f.hash2 < cfg.tableSize

/-- What is left of a search: its retries, then its slots. -/
def searchLeft (cfg : Config) (m : Memory) (flow : Flow FindFrame (Nat × TablePointer)) : Nat :=
  match flow with
  | .running f => m.slack cfg + (numItemsPerEntry - f.slot)
  | .returned _ => 0

theorem FindFrame.Blocked.alike (blocked : f.Blocked cfg m) (same : Alike m n) : f.Blocked cfg n := by
  refine ⟨blocked.1,?_⟩
  rcases blocked.2 with stuck | ⟨missed,stuck⟩
  · exact .inl (stuck.alike same)
  · refine .inr ⟨?_,stuck.alike same⟩
    simpa only [Misses,same.table,same.str] using missed

theorem find_turn (tidy : m.Tidy cfg) (turns : f.Turns cfg flow) :
    Ends (find cfg tid) (fun n flow' => (f.Done n flow' ∨ ∃ g, flow' = .running g ∧ g.Blocked cfg n) ∨
      (n.Tidy cfg ∧ f.Turns cfg flow') ∧ searchLeft cfg n flow' < searchLeft cfg m flow) m flow := by
  obtain ⟨i,bound,rfl,first,second⟩ := turns
  refine .mono ((find_slot (f := { f with slot := i, pc := .readFirst }) tidy rfl ⟨first,bound⟩
    ⟨second,bound⟩).steady (find_steady cfg tid)) ?_
  rintro n flow ⟨outcome,steady⟩
  cases outcome with
  | first table hits =>
    refine .inl (.inl ⟨_,_,rfl,.inr ?_⟩)
    simp only [FindFrame.bucketOf,bound,if_true,Nat.mod_eq_of_lt bound,table]
  | second table missed hits =>
    refine .inl (.inl ⟨_,_,rfl,.inr ?_⟩)
    simp [FindFrame.bucketOf,Nat.mod_eq_of_lt bound,table]
  | passed table missed missed' =>
    unfold FindFrame.nextSlot
    split
    · rename_i more
      refine .inr ⟨⟨tidy.table table,_,more,rfl,first,second⟩,?_⟩
      simp only [searchLeft,slack_table table]
      omega
    · exact .inl (.inl ⟨_,_,rfl,.inl rfl⟩)
  | helped marked loose tidy' less =>
    refine .inr ⟨⟨tidy',_,bound,rfl,first,second⟩,?_⟩
    simp only [searchLeft,FindFrame.goto]
    omega
  | blocked table stuck =>
    exact .inl (.inr ⟨_,rfl,stuck.alike ⟨table,steady.heap⟩⟩)

/-- A search alone returns, or comes to a mark that stays. -/
theorem find_alone (tidy : m.Tidy cfg) (turns : f.Turns cfg flow) :
    Ends (find cfg tid) (fun n flow => f.Done n flow ∨ ∃ g, flow = .running g ∧ g.Blocked cfg n)
      m flow :=
  .loop (fun m flow => m.Tidy cfg ∧ f.Turns cfg flow) (searchLeft cfg)
    (fun _ _ kept => find_turn kept.1 kept.2) ⟨tidy,turns⟩

theorem find_stays (tidy : m.Tidy cfg) (inside : f.Inside cfg) (blocked : f.Blocked cfg m) :
    Ends (find cfg tid) (fun n flow => ∃ g, flow = .running g ∧ g.Blocked cfg n)
      (find cfg tid m f).1 (find cfg tid m f).2 := by
  have read : Ends (find cfg tid) (Searched cfg m f) (find cfg tid m f).1 (find cfg tid m f).2 :=
    find_read tidy blocked.1 ⟨inside.1,inside.2.2.1⟩ ⟨inside.2.1,inside.2.2.1⟩
  refine (read.steady (find_steady cfg tid)).mono ?_
  rintro n flow ⟨outcome,steady⟩
  obtain ⟨rfl,table⟩ := outcome.of_blocked blocked
  have same : Alike m n := ⟨table,steady.heap.trans (find_steady cfg tid m f).heap⟩
  exact ⟨_,rfl,FindFrame.Blocked.alike ⟨rfl,blocked.2⟩ same⟩

/-- A search has returned or is at the head of its loop. -/
def FindFrame.Begins (f : FindFrame) (cfg : Config) (flow : Flow FindFrame (Nat × TablePointer)) :
    Prop :=
  (∃ result, flow = .returned result) ∨ f.Turns cfg flow

theorem begins_head (inside : f.Inside cfg) : f.Begins cfg (.running (f.goto .readFirst)) :=
  .inr ⟨f.slot,inside.2.2.1,rfl,inside.1,inside.2.1⟩

theorem help_begins (inside : f.Inside cfg) (slot : cfg.Slot frame.tableIdx frame.slotIdx)
    (formed : frame.Formed cfg m) (tidy : m.Tidy cfg) :
    Ends (find cfg tid) (fun _ flow => f.Begins cfg flow) m (.running (f.goto (.help frame))) := by
  refine Ends.call (fun frame => f.goto (.help frame)) f.afterHelp (fun _ => rfl)
    (find_help cfg tid f) (help_ends formed (tidy _ _ slot)) ?_
  rintro n flow rfl
  exact .here (begins_head inside)

theorem recheckSecond_begins (inside : f.Inside cfg) (ts1 ts2 ts1x : Nat) :
    Ends (find cfg tid) (fun _ flow => f.Begins cfg flow) m
      (.running (f.goto (.recheckSecond ts1 ts2 ts1x))) := by
  by_cases again : checkCounter ts1 ts2 ts1x (getCounter (m.hashTable f.hash2 f.slot)) = true
  · exact .step (if_pos again) (.here (begins_head inside))
  · refine .step (if_neg again) (.here ?_)
    unfold FindFrame.nextSlot
    split
    · exact .inr ⟨_,by assumption,rfl,inside.1,inside.2.1⟩
    · exact .inl ⟨_,rfl⟩

theorem recheck_begins (inside : f.Inside cfg) (ts1 ts2 : Nat) :
    Ends (find cfg tid) (fun _ flow => f.Begins cfg flow) m
      (.running (f.goto (.recheckFirst ts1 ts2))) :=
  .step rfl (recheckSecond_begins inside ts1 ts2 _)

theorem compare_begins (inside : f.Inside cfg) (ts1 : Nat) (ptr2 : TablePointer) :
    Ends (find cfg tid) (fun _ flow => f.Begins cfg flow) m
      (.running (f.goto (.compareSecond ts1 ptr2))) := by
  by_cases hit : f.fingerprint = m.str (getRealPointer ptr2)
  · exact .step (if_pos hit) (.here (.inl ⟨_,rfl⟩))
  · exact .step (if_neg hit) (recheck_begins inside _ _)

theorem second_begins (tidy : m.Tidy cfg) (inside : f.Inside cfg) (ts1 : Nat) :
    Ends (find cfg tid) (fun _ flow => f.Begins cfg flow) m
      (.running (f.goto (.readSecond ts1))) := by
  by_cases empty : getRealPointer (m.hashTable f.hash2 f.slot) = 0
  · exact .step (if_pos empty) (recheck_begins inside _ _)
  by_cases marked : getMarked (m.hashTable f.hash2 f.slot) = true
  · exact .step ((if_neg empty).trans (if_pos marked)) 
      (help_begins inside ⟨inside.2.1,inside.2.2.1⟩ trivial (tidy.table rfl))
  · exact .step ((if_neg empty).trans (if_neg marked)) (compare_begins inside _ _)

theorem find_begins (tidy : m.Tidy cfg) (inside : f.Inside cfg)
    (formed : ∀ frame, f.help? = some frame → frame.Formed cfg m) :
    Ends (find cfg tid) (fun _ flow => f.Begins cfg flow) m (.running f) := by
  cases pc : f.pc with
  | readFirst =>
    have head := begins_head inside
    rw [FindFrame.goto_self pc] at head
    exact .here head
  | compareFirst ptr1 =>
    rw [← FindFrame.goto_self pc]
    by_cases hit : f.fingerprint = m.str (getRealPointer ptr1)
    · exact .step (if_pos hit) (.here (.inl ⟨_,rfl⟩))
    · exact .step (if_neg hit) (second_begins tidy inside _)
  | readSecond ts1 =>
    rw [← FindFrame.goto_self pc]
    exact second_begins tidy inside ts1
  | compareSecond ts1 ptr2 =>
    rw [← FindFrame.goto_self pc]
    exact compare_begins inside ts1 ptr2
  | recheckFirst ts1 ts2 =>
    rw [← FindFrame.goto_self pc]
    exact recheck_begins inside ts1 ts2
  | recheckSecond ts1 ts2 ts1x =>
    rw [← FindFrame.goto_self pc]
    exact recheckSecond_begins inside ts1 ts2 ts1x
  | help frame =>
    have nested : f.help? = some frame := by simp [FindFrame.help?,pc]
    have call : Ends (find cfg tid) (fun _ flow => f.Begins cfg flow) m
        (.running (f.goto (.help frame))) :=
      help_begins inside (inside.2.2.2 frame nested) (formed frame nested) tidy
    rwa [FindFrame.goto_self pc] at call

end CuckooFilter.LockFree
