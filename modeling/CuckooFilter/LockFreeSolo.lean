import CuckooFilter.LockFreeAbort
import CuckooFilter.LockFreeHistory

/-! Calls that run alone, from any table: where `help_relocate` gets to when no other
thread moves. A call that would abort ends there. -/
namespace CuckooFilter.LockFree

/-- One step of the function `g`; none after it has returned or aborted. -/
def Calls (g : Memory → Frame → Memory × Flow Frame Result)
    (before after : Memory × Flow Frame Result) : Prop :=
  ∃ f, before.2 = .running f ∧ before.1.aborted = false ∧ after = g before.1 f

/-- Frames of the functions that call `help_relocate`, and of that function itself. -/
class Calling (Frame : Type) where
  help? : Frame → Option HelpFrame

instance : Calling HelpFrame := ⟨some⟩

instance : Calling FindFrame := ⟨FindFrame.help?⟩

instance : Calling RelocateFrame := ⟨RelocateFrame.help?⟩

/-- The call stands before `create_pointer` with a counter above `UINT16_MAX`. -/
def Flow.Overflows [Calling Frame] : Flow Frame Result → Prop
  | .running f => ∃ frame, Calling.help? f = some frame ∧ frame.Overflows
  | .returned _ => False

/-- Alone, in a process that has not aborted, the call comes to the goal or aborts on a
counter that does not fit. -/
def Ends [Calling Frame] (g : Memory → Frame → Memory × Flow Frame Result)
    (goal : Memory → Flow Frame Result → Prop) (m : Memory) (flow : Flow Frame Result) : Prop :=
  m.aborted = false → Transition.Inevitable (Calls g)
    (fun c => c.1.aborted = true ∧ c.2.Overflows ∨ goal c.1 c.2) (m,flow)

/-- A function that aborts on such a counter only, and stays where it stands. -/
class Stalling [Calling Frame] (g : Memory → Frame → Memory × Flow Frame Result) : Prop where
  aborts : ∀ m f, (g m f).1.aborted = true → m.aborted = true ∨ (g m f).2.Overflows

instance : Stalling (helpRelocate cfg tid) where
  aborts m f aborted := by
    refine (helpRelocate_aborts aborted).imp_right ?_
    rintro ⟨beyond,same⟩
    rw [same]
    exact ⟨f,rfl,beyond⟩

instance : Stalling (find cfg tid) where
  aborts m f aborted := by
    refine (find_aborts aborted).imp_right ?_
    rintro ⟨beyond,same⟩
    rw [same]
    exact beyond

instance : Stalling (relocate cfg tid) where
  aborts m f aborted := by
    refine (relocate_aborts aborted).imp_right ?_
    rintro ⟨beyond,same⟩
    rw [same]
    exact beyond

section

variable [Calling Frame] {g : Memory → Frame → Memory × Flow Frame Result}
variable {goal goal' : Memory → Flow Frame Result → Prop} {m : Memory} {flow : Flow Frame Result}

theorem Ends.here (holds : goal m flow) : Ends g goal m flow := fun _ => .reached (.inr holds)

theorem Ends.aborts (aborted : m.aborted = true) : Ends g goal m flow :=
  fun live => absurd aborted (Bool.eq_false_iff.mp live)

variable [Stalling g]

/-- The rules below speak of the flag alone: where it is set, a counter did not fit. -/
theorem ends_iff : Ends g goal m flow ↔
    Transition.Inevitable (Calls g) (fun c => c.1.aborted = true ∨ goal c.1 c.2) (m,flow) := by
  constructor
  · intro ends
    cases live : m.aborted with
    | true => exact .reached (.inl live)
    | false => exact (ends live).mono fun c outcome => outcome.imp_left And.left
  · intro comes live
    have both := Transition.Inevitable.keep (fun c => c.1.aborted = true → c.2.Overflows) ?_
      (by simp [live]) comes
    · refine both.mono fun c => ?_
      rintro ⟨aborted | holds,beyond⟩
      · exact .inl ⟨aborted,beyond aborted⟩
      · exact .inr holds
    · rintro ⟨n,flow⟩ d - ⟨f,rfl,alive,rfl⟩ aborted
      exact (Stalling.aborts n f aborted).resolve_left (Bool.eq_false_iff.mp alive)

theorem Ends.step (stepped : g m f = (next,flow)) (rest : Ends g goal next flow) :
    Ends g goal m (.running f) := by
  cases aborted : m.aborted with
  | true => exact .aborts aborted
  | false =>
    refine ends_iff.mpr (Transition.Inevitable.next ⟨f,rfl,aborted,stepped.symm⟩ ?_
      (ends_iff.mp rest))
    rintro _ ⟨f',same,-,rfl⟩
    cases same
    exact stepped

theorem Ends.next (rest : Ends g goal (g m f).1 (g m f).2) : Ends g goal m (.running f) :=
  .step rfl rest

theorem Ends.bind (first : Ends g goal m flow)
    (second : ∀ n flow, goal n flow → Ends g goal' n flow) : Ends g goal' m flow := by
  refine ends_iff.mpr (Transition.Inevitable.bind (ends_iff.mp first) ?_)
  rintro ⟨n,flow⟩ (aborted | holds)
  · exact .reached (.inl aborted)
  · exact ends_iff.mp (second n flow holds)

theorem Ends.mono (ends : Ends g goal m flow) (implies : ∀ n flow, goal n flow → goal' n flow) :
    Ends g goal' m flow :=
  ends.bind fun n flow holds => .here (implies n flow holds)

theorem Ends.keep (invariant : Memory → Flow Frame Result → Prop)
    (preserved : ∀ n f, invariant n (.running f) → invariant (g n f).1 (g n f).2)
    (initial : invariant m flow) (ends : Ends g goal m flow) :
    Ends g (fun n flow => goal n flow ∧ invariant n flow) m flow := by
  have both := Transition.Inevitable.keep (fun c => invariant c.1 c.2) ?_ initial (ends_iff.mp ends)
  · refine ends_iff.mpr (both.mono ?_)
    rintro c ⟨aborted | holds,kept⟩
    · exact .inl aborted
    · exact .inr ⟨holds,kept⟩
  · rintro ⟨n,flow⟩ d kept ⟨f,rfl,-,rfl⟩
    exact preserved n f kept

/-- A call nested in the frame of another function. -/
theorem Ends.call [Calling Outer] {h : Memory → Outer → Memory × Flow Outer Final} [Stalling h]
    {goal' : Memory → Flow Outer Final → Prop}
    (frame : Frame → Outer) (wrap : Flow Frame Result → Flow Outer Final)
    (running : ∀ f, wrap (.running f) = .running (frame f))
    (steps : ∀ m f, h m (frame f) = ((g m f).1,wrap (g m f).2))
    (inner : Ends g goal m flow) (after : ∀ n flow, goal n flow → Ends h goal' n (wrap flow)) :
    Ends h goal' m (wrap flow) := by
  refine ends_iff.mpr (Transition.Inevitable.embed (fun c => (c.1,wrap c.2)) ?_ ?_
    (ends_iff.mp inner) ?_)
  · rintro c d ⟨f,site,live,rfl⟩
    exact ⟨_,frame f,by rw [← running,site],live,rfl⟩
  · rintro c d u ⟨f,site,live,rfl⟩ ⟨f',site',-,rfl⟩
    refine ⟨_,⟨f,site,live,rfl⟩,?_⟩
    have same : frame f = f' := by
      simp only [site,running] at site'
      exact Flow.running.inj site'
    rw [← same]
    exact steps c.1 f
  · rintro ⟨n,flow⟩ (aborted | holds)
    · exact .reached (.inl aborted)
    · exact ends_iff.mp (after n flow holds)

/-- A loop of the function with a decreasing measure. -/
theorem Ends.loop (invariant : Memory → Flow Frame Result → Prop)
    (measure : Memory → Flow Frame Result → Nat)
    (round : ∀ m flow, invariant m flow → Ends g (fun n flow' => goal n flow' ∨
      invariant n flow' ∧ measure n flow' < measure m flow) m flow)
    (initial : invariant m flow) : Ends g goal m flow := by
  refine ends_iff.mpr (Transition.Inevitable.loop (fun c => invariant c.1 c.2)
    (fun c => measure c.1 c.2) ?_ initial)
  rintro ⟨m,flow⟩ kept
  refine Transition.Inevitable.mono (ends_iff.mp (round m flow kept)) ?_
  rintro ⟨n,flow'⟩ (aborted | done | going)
  · exact .inl (.inl aborted)
  · exact .inl (.inr done)
  · exact .inr going

end

def callSteps (g : Memory → Frame → Memory × Flow Frame Result) :
    Nat → Memory × Flow Frame Result → Memory × Flow Frame Result
  | 0,c => c
  | _ + 1,(m,.returned result) => (m,.returned result)
  | k + 1,(m,.running f) => if m.aborted then (m,.running f) else callSteps g k (g m f)

theorem callSteps_run (g : Memory → Frame → Memory × Flow Frame Result) (k : Nat)
    (c : Memory × Flow Frame Result) : Relation.ReflTransGen (Calls g) c (callSteps g k c) := by
  induction k generalizing c with
  | zero => exact .refl
  | succ k ih =>
    obtain ⟨m,f | result⟩ := c
    · rw [callSteps]
      split
      · exact .refl
      · rename_i live
        exact .head ⟨f,rfl,Bool.eq_false_iff.mpr live,rfl⟩ (ih _)
    · exact .refl

/-- A call that must come to a returned goal has come to it when it returns. -/
theorem Ends.returned [Calling Frame] {g : Memory → Frame → Memory × Flow Frame Result} [Stalling g]
    {goal : Memory → Flow Frame Result → Prop}
    (final : ∀ m f, ¬goal m (.running f)) (ends : Ends g goal m flow)
    (run : Relation.ReflTransGen (Calls g) (m,flow) (n,.returned result))
    (live : n.aborted = false) : goal n (.returned result) := by
  have stays : Relation.ReflTransGen
      (fun a b => ¬(a.1.aborted = true ∨ goal a.1 a.2) ∧ Calls g a b) (m,flow)
      (n,.returned result) := by
    refine Relation.ReflTransGen.mono ?_ _ _ run
    rintro ⟨m,flow⟩ d ⟨f,rfl,busy,next⟩
    refine ⟨?_,f,rfl,busy,next⟩
    rintro (aborted | here)
    · exact Bool.eq_false_iff.mp busy aborted
    · exact final m f here
  cases Transition.Inevitable.along (ends_iff.mp ends) stays with
  | reached here => exact here.resolve_left (by simp [live])
  | later move =>
    obtain ⟨_,f,site,-⟩ := move
    cases site

/-- The same words and the same entries. -/
structure Alike (m next : Memory) : Prop where
  table : next.hashTable = m.hashTable
  heap : next.heap = m.heap

theorem Alike.refl (m : Memory) : Alike m m := ⟨rfl,rfl⟩

theorem Alike.trans (first : Alike a b) (second : Alike b c) : Alike a c :=
  ⟨second.table.trans first.table,second.heap.trans first.heap⟩

theorem Alike.clearHazard (m : Memory) (tid : Nat) : Alike m (m.clearHazard tid) := ⟨rfl,rfl⟩

theorem Alike.symm (same : Alike m next) : Alike next m := ⟨same.table.symm,same.heap.symm⟩

theorem Alike.str (same : Alike m next) : next.str = m.str := by
  funext entry
  simp only [Memory.str,same.heap]

@[simp] theorem markHazard_table (m : Memory) (p : Address) (index tid : Nat) :
    (m.markHazard p index tid).hashTable = m.hashTable := rfl
@[simp] theorem markHazard_str (m : Memory) (p : Address) (index tid : Nat) :
    (m.markHazard p index tid).str = m.str := rfl
@[simp] theorem clearHazard_table (m : Memory) (tid : Nat) :
    (m.clearHazard tid).hashTable = m.hashTable := rfl
@[simp] theorem clearHazard_str (m : Memory) (tid : Nat) : (m.clearHazard tid).str = m.str := rfl

/-- No response, no history and no allocation. -/
structure Steady (m next : Memory) : Prop where
  silent : Silent m next
  heap : next.heap = m.heap

theorem Steady.refl (m : Memory) : Steady m m := ⟨.refl m,rfl⟩

theorem Steady.trans (first : Steady a b) (second : Steady b c) : Steady a c :=
  ⟨⟨second.silent.returned.trans first.silent.returned,second.silent.stored.trans first.silent.stored,
    second.silent.removed.trans first.silent.removed,
    second.silent.retired.trans first.silent.retired⟩,second.heap.trans first.heap⟩

theorem help_steady (cfg : Config) (tid : Nat) (m : Memory) (f : HelpFrame) :
    Steady m (helpRelocate cfg tid m f).1 :=
  ⟨helpRelocate_silent cfg tid m f,(helpStep_heap (helpRelocate_step cfg tid m f)).1⟩

theorem find_steady (cfg : Config) (tid : Nat) (m : Memory) (f : FindFrame) :
    Steady m (find cfg tid m f).1 :=
  ⟨find_silent cfg tid m f,(nested_heap (find_nested cfg tid m f)).1⟩

theorem relocate_steady (cfg : Config) (tid : Nat) (m : Memory) (f : RelocateFrame) :
    Steady m (relocate cfg tid m f).1 :=
  ⟨relocate_silent cfg tid m f,(nested_heap (relocate_nested cfg tid m f)).1⟩

theorem Ends.steady [Calling Frame] {g : Memory → Frame → Memory × Flow Frame Result} [Stalling g]
    {goal : Memory → Flow Frame Result → Prop} (steps : ∀ m f, Steady m (g m f).1) (ends : Ends g goal m flow) :
    Ends g (fun n flow => goal n flow ∧ Steady m n) m flow :=
  ends.keep (fun n _ => Steady m n) (fun n f kept => kept.trans (steps n f)) (.refl m)

/-- The other bucket of the entry in a slot. -/
def Memory.alternate (cfg : Config) (m : Memory) (b i : Nat) : Nat :=
  getNextHashIndex cfg.tableSize b (m.str (getRealPointer (m.hashTable b i)))

/-- The outcomes of a call alone on a marked slot: the entry moves; the destination
held the very word of the source and is emptied; or nothing happens. -/
inductive Settled (cfg : Config) (m : Memory) (b i : Nat) (next : Memory) : Prop where
  | moved (vacant : getRealPointer (m.hashTable (m.alternate cfg b i) i) = 0)
      (created : createPointer
        (raisedCounter (m.hashTable b i) (m.hashTable (m.alternate cfg b i) i))
        (getRealPointer (m.hashTable b i)) false = some word)
      (emptied : createPointer (getCounter (m.hashTable b i) + 1) 0 false = some empty)
      (table : next.hashTable =
        ((m.write (m.alternate cfg b i) i word).write b i empty).hashTable) :
      Settled cfg m b i next
  | erased (same : m.hashTable (m.alternate cfg b i) i = m.hashTable b i)
      (emptied : createPointer (getCounter (m.hashTable b i) + 1) 0 false = some empty)
      (table : next.hashTable = (m.write (m.alternate cfg b i) i empty).hashTable) :
      Settled cfg m b i next
  | stuck (full : getRealPointer (m.hashTable (m.alternate cfg b i) i) ≠ 0)
      (other : m.hashTable (m.alternate cfg b i) i ≠ m.hashTable b i)
      (table : next.hashTable = m.hashTable) : Settled cfg m b i next

theorem Settled.alike (outcome : Settled cfg m' b i next) (same : Alike m m') :
    Settled cfg m b i next := by
  have bucket : m'.alternate cfg b i = m.alternate cfg b i := by
    simp only [Memory.alternate,same.str,same.table]
  cases outcome with
  | moved vacant created emptied table =>
    rw [bucket,same.table] at vacant created
    rw [same.table] at emptied
    refine .moved vacant created emptied (table.trans ?_)
    rw [bucket]
    simp only [Memory.write,same.table]
  | erased word emptied table =>
    rw [bucket,same.table] at word
    rw [same.table] at emptied
    refine .erased word emptied (table.trans ?_)
    rw [bucket]
    simp only [Memory.write,same.table]
  | stuck full other table =>
    rw [bucket,same.table] at full other
    exact .stuck full other (table.trans same.table)

section

variable {cfg : Config} {tid : Nat} {m : Memory} {f : HelpFrame}

theorem same_alone (pc : f.pc = .sameCas ptr1 newHash) :
    Ends (helpRelocate cfg tid) (fun n flow => flow = .returned () ∧
      (m.hashTable newHash f.slotIdx = ptr1 →
        ∃ empty, createPointer (getCounter ptr1 + 1) 0 false = some empty ∧
          n.hashTable = (m.write newHash f.slotIdx empty).hashTable) ∧
      (m.hashTable newHash f.slotIdx ≠ ptr1 → n.hashTable = m.hashTable)) m (.running f) := by
  apply Ends.next
  simp only [helpRelocate,pc]
  cases created : createPointer (getCounter ptr1 + 1) 0 false with
  | none => exact .aborts rfl
  | some empty =>
    by_cases found : m.hashTable newHash f.slotIdx = ptr1
    · simp only [Memory.compareAndSwap,found,if_true]
      exact .here ⟨rfl,fun _ => ⟨empty,rfl,rfl⟩,fun other => absurd rfl other⟩
    · simp only [Memory.compareAndSwap,found,if_false]
      exact .here ⟨rfl,fun same => same.elim,fun _ => rfl⟩

theorem fail_alone (pc : f.pc = .failCas ptr1 newHash) :
    Ends (helpRelocate cfg tid) (fun n flow => flow = .returned () ∧
      (m.hashTable newHash f.slotIdx ≠ ptr1 → n.hashTable = m.hashTable)) m (.running f) := by
  apply Ends.next
  simp only [helpRelocate,pc]
  cases createPointer (getCounter ptr1 + 1) (getRealPointer ptr1) true with
  | none => exact .aborts rfl
  | some word =>
    by_cases found : m.hashTable newHash f.slotIdx = ptr1
    · simp only [Memory.compareAndSwap,found,if_true]
      exact .here ⟨rfl,fun other => absurd rfl other⟩
    · simp only [Memory.compareAndSwap,found,if_false]
      exact .here ⟨rfl,fun _ => rfl⟩

/-- The two branches that find the destination occupied, or took it for occupied. -/
theorem last_alone (cfg : Config) (tid : Nat) (m : Memory) (f : HelpFrame) (ptr1 : TablePointer)
    (p : Address) (newHash : Nat) :
    Ends (helpRelocate cfg tid) (fun n flow => flow = .returned () ∧
      (m.hashTable newHash f.slotIdx = ptr1 → getRealPointer ptr1 = p →
        ∃ empty, createPointer (getCounter ptr1 + 1) 0 false = some empty ∧
          n.hashTable = (m.write newHash f.slotIdx empty).hashTable) ∧
      (m.hashTable newHash f.slotIdx ≠ ptr1 → n.hashTable = m.hashTable))
      m (.running (f.occupied ptr1 p newHash)) := by
  unfold HelpFrame.occupied
  split
  · refine .mono (same_alone (f := f.goto _) rfl) ?_
    rintro n flow ⟨back,found,changed⟩
    exact ⟨back,fun same _ => found same,changed⟩
  · rename_i different
    refine .mono (fail_alone (f := f.goto _) rfl) ?_
    rintro n flow ⟨back,changed⟩
    exact ⟨back,fun _ same => absurd same different,changed⟩

theorem clear_alone (pc : f.pc = .clearCas ptr1 newHash)
    (found : m.hashTable f.tableIdx f.slotIdx = ptr1) :
    Ends (helpRelocate cfg tid) (fun n flow => flow = .returned () ∧
      ∃ empty, createPointer (getCounter ptr1 + 1) 0 false = some empty ∧
        n.hashTable = (m.write f.tableIdx f.slotIdx empty).hashTable) m (.running f) := by
  cases created : createPointer (getCounter ptr1 + 1) 0 false with
  | none =>
    have stepped : helpRelocate cfg tid m f = (m.abort,.running f) := by
      simp only [helpRelocate,pc,created]
    exact .step stepped (.aborts rfl)
  | some empty =>
    have stepped : helpRelocate cfg tid m f =
        (m.write f.tableIdx f.slotIdx empty,.returned ()) := by
      simp only [helpRelocate,pc,created,Memory.compareAndSwap,found,if_true]
    exact .step stepped (.here ⟨rfl,empty,rfl,rfl⟩)

theorem copy_alone (pc : f.pc = .copyCas ptr1 ptr2 newHash) (away : newHash ≠ f.tableIdx)
    (found : m.hashTable f.tableIdx f.slotIdx = ptr1)
    (dest : m.hashTable newHash f.slotIdx = ptr2) :
    Ends (helpRelocate cfg tid) (fun n flow => flow = .returned () ∧ ∃ word empty,
      createPointer (raisedCounter ptr1 ptr2) (getRealPointer ptr1) false = some word ∧
      createPointer (getCounter ptr1 + 1) 0 false = some empty ∧
      n.hashTable = ((m.write newHash f.slotIdx word).write f.tableIdx f.slotIdx empty).hashTable)
      m (.running f) := by
  cases created : createPointer (raisedCounter ptr1 ptr2) (getRealPointer ptr1) false with
  | none =>
    have stepped : helpRelocate cfg tid m f = (m.abort,.running f) := by
      simp only [helpRelocate,pc,created]
    exact .step stepped (.aborts rfl)
  | some word =>
    have stepped : helpRelocate cfg tid m f = ((m.write newHash f.slotIdx word).recordRaise,
        .running (f.goto (.clearCas ptr1 newHash))) := by
      simp only [helpRelocate,pc,created,Memory.compareAndSwap,dest,if_true]
    have source : (m.write newHash f.slotIdx word).recordRaise.hashTable f.tableIdx f.slotIdx =
        ptr1 := by
      simp [Memory.write_table,Ne.symm away,found]
    refine .step stepped (.mono (clear_alone rfl source) ?_)
    rintro n flow ⟨rfl,empty,emptied,table⟩
    exact ⟨rfl,word,empty,rfl,emptied,table⟩

theorem dest_alone (pc : f.pc = .readDest (m.hashTable f.tableIdx f.slotIdx)
      (m.alternate cfg f.tableIdx f.slotIdx))
    (moving : Relocating (m.hashTable f.tableIdx f.slotIdx)) :
    Ends (helpRelocate cfg tid) (fun n flow => flow = .returned () ∧
      Settled cfg m f.tableIdx f.slotIdx n) m (.running f) := by
  by_cases vacant : getRealPointer (m.hashTable (m.alternate cfg f.tableIdx f.slotIdx) f.slotIdx) = 0
  · have away : m.alternate cfg f.tableIdx f.slotIdx ≠ f.tableIdx := by
      intro same
      rw [same] at vacant
      exact moving.2 vacant
    apply Ends.next
    simp only [helpRelocate,pc,vacant,if_true]
    apply Ends.next
    simp only [helpRelocate,HelpFrame.goto,Memory.markHazard,ne_eq,not_true_eq_false,if_false]
    refine .mono (copy_alone rfl away rfl rfl) ?_
    rintro n flow ⟨rfl,word,empty,created,emptied,table⟩
    exact ⟨rfl,.moved vacant created emptied table⟩
  · apply Ends.next
    simp only [helpRelocate,pc,vacant,if_false]
    refine .mono (last_alone cfg tid _ f _ _ _) ?_
    rintro n flow ⟨rfl,found,changed⟩
    refine ⟨rfl,?_⟩
    by_cases same : m.hashTable (m.alternate cfg f.tableIdx f.slotIdx) f.slotIdx =
        m.hashTable f.tableIdx f.slotIdx
    · obtain ⟨empty,emptied,table⟩ := found same (by rw [same])
      exact .erased same emptied table
    · exact .stuck vacant same (changed same)

theorem read_alone (entry : f.pc = .readSource ∨ f.pc = .rereadSource)
    (rest : Ends (helpRelocate cfg tid) goal
      (m.markHazard (getRealPointer (m.hashTable f.tableIdx f.slotIdx)) 0 tid)
      (f.loaded (m.hashTable f.tableIdx f.slotIdx))) :
    Ends (helpRelocate cfg tid) goal m (.running f) := by
  refine .step ?_ rest
  rcases entry with pc | pc <;> simp only [helpRelocate,pc]

theorem marked_alone (entry : f.pc = .readSource ∨ f.pc = .rereadSource)
    (moving : Relocating (m.hashTable f.tableIdx f.slotIdx)) :
    Ends (helpRelocate cfg tid) (fun n flow => flow = .returned () ∧
      Settled cfg m f.tableIdx f.slotIdx n) m (.running f) := by
  refine read_alone entry ?_
  simp only [HelpFrame.loaded,moving.1,if_true]
  apply Ends.next
  simp only [helpRelocate,HelpFrame.goto]
  refine .mono (@dest_alone cfg tid _ (f.goto (.readDest _ _)) rfl moving) ?_
  rintro n flow ⟨rfl,outcome⟩
  exact ⟨rfl,outcome.alike ⟨rfl,rfl⟩⟩

/-- What a call alone does to the table. -/
inductive HelpEffect (cfg : Config) (m : Memory) (b i : Nat) (initiator : Bool) (next : Memory) :
    Prop where
  | nothing (unmarked : getMarked (m.hashTable b i) = false)
      (idle : initiator = true → getRealPointer (m.hashTable b i) = 0)
      (table : next.hashTable = m.hashTable) : HelpEffect cfg m b i initiator next
  | settled (moving : Relocating (m.hashTable b i)) (outcome : Settled cfg m b i next) :
      HelpEffect cfg m b i initiator next
  | initiated (began : initiator = true) (unmarked : getMarked (m.hashTable b i) = false)
      (present : getRealPointer (m.hashTable b i) ≠ 0)
      (outcome : Settled cfg (m.write b i (getNewMark (m.hashTable b i) true)) b i next) :
      HelpEffect cfg m b i initiator next

theorem source_alone (entry : f.pc = .readSource ∨ f.pc = .rereadSource)
    (marks : getMarked (m.hashTable f.tableIdx f.slotIdx) = true →
      getRealPointer (m.hashTable f.tableIdx f.slotIdx) ≠ 0) :
    Ends (helpRelocate cfg tid) (fun n flow => flow = .returned () ∧
      HelpEffect cfg m f.tableIdx f.slotIdx f.initiator n) m (.running f) := by
  cases marked : getMarked (m.hashTable f.tableIdx f.slotIdx) with
  | true =>
    have moving : Relocating (m.hashTable f.tableIdx f.slotIdx) := ⟨marked,marks marked⟩
    refine .mono (marked_alone entry moving) ?_
    rintro n flow ⟨rfl,outcome⟩
    exact ⟨rfl,.settled moving outcome⟩
  | false =>
    refine read_alone entry ?_
    by_cases going : f.initiator = true ∧ getRealPointer (m.hashTable f.tableIdx f.slotIdx) ≠ 0
    · rw [HelpFrame.loaded,if_neg (by simp [marked]),if_pos going]
      apply Ends.next
      simp only [helpRelocate,HelpFrame.goto,Memory.compareAndSwap,Memory.markHazard,if_true]
      refine .mono (marked_alone (.inr rfl) ?_) ?_
      · simpa [Memory.write_table,Relocating] using going.2
      · rintro n flow ⟨rfl,outcome⟩
        exact ⟨rfl,.initiated going.1 marked going.2 (outcome.alike ⟨rfl,rfl⟩)⟩
    · simp only [HelpFrame.loaded,marked,going,if_false]
      refine .here ⟨rfl,.nothing marked ?_ rfl⟩
      intro began
      by_contra present
      exact going ⟨began,present⟩

theorem last_ends (cfg : Config) (tid : Nat) (m : Memory) (f : HelpFrame) (ptr1 : TablePointer)
    (p : Address) (newHash : Nat) :
    Ends (helpRelocate cfg tid) (fun _ flow => flow = .returned ()) m
      (.running (f.occupied ptr1 p newHash)) :=
  (last_alone cfg tid m f ptr1 p newHash).mono fun _ _ outcome => outcome.1

theorem clear_ends (pc : f.pc = .clearCas ptr1 newHash) :
    Ends (helpRelocate cfg tid) (fun _ flow => flow = .returned ()) m (.running f) := by
  apply Ends.next
  simp only [helpRelocate,pc]
  cases createPointer (getCounter ptr1 + 1) 0 false with
  | none => exact .aborts rfl
  | some word => exact .here rfl

theorem copy_ends (pc : f.pc = .copyCas ptr1 ptr2 newHash) :
    Ends (helpRelocate cfg tid) (fun _ flow => flow = .returned ()) m (.running f) := by
  apply Ends.next
  simp only [helpRelocate,pc]
  cases createPointer (raisedCounter ptr1 ptr2) (getRealPointer ptr1) false with
  | none => exact .aborts rfl
  | some word =>
    by_cases found : m.hashTable newHash f.slotIdx = ptr2
    · simp only [Memory.compareAndSwap,found,if_true]
      exact clear_ends (f := f.goto _) rfl
    · simp only [Memory.compareAndSwap,found,if_false]
      exact last_ends cfg tid m f ptr1 _ newHash

/-- The recheck sends a call back to its first read at most once. -/
theorem recheck_ends (pc : f.pc = .recheckSource ptr1 ptr2 newHash)
    (marks : getMarked (m.hashTable f.tableIdx f.slotIdx) = true →
      getRealPointer (m.hashTable f.tableIdx f.slotIdx) ≠ 0) :
    Ends (helpRelocate cfg tid) (fun _ flow => flow = .returned ()) m (.running f) := by
  apply Ends.next
  simp only [helpRelocate,pc]
  split
  · exact (source_alone (f := f.goto _) (.inl rfl) marks).mono fun _ _ outcome => outcome.1
  · exact copy_ends (f := f.goto _) rfl

theorem dest_ends (pc : f.pc = .readDest ptr1 newHash)
    (marks : getMarked (m.hashTable f.tableIdx f.slotIdx) = true →
      getRealPointer (m.hashTable f.tableIdx f.slotIdx) ≠ 0) :
    Ends (helpRelocate cfg tid) (fun _ flow => flow = .returned ()) m (.running f) := by
  apply Ends.next
  simp only [helpRelocate,pc]
  split
  · exact recheck_ends (f := f.goto _) rfl marks
  · exact last_ends cfg tid _ f ptr1 _ newHash

/-- From any point of it, a call alone returns. -/
theorem help_ends (formed : f.Formed cfg m)
    (marks : getMarked (m.hashTable f.tableIdx f.slotIdx) = true →
      getRealPointer (m.hashTable f.tableIdx f.slotIdx) ≠ 0) :
    Ends (helpRelocate cfg tid) (fun _ flow => flow = .returned ()) m (.running f) := by
  cases pc : f.pc with
  | readSource => exact (source_alone (.inl pc) marks).mono fun _ _ outcome => outcome.1
  | rereadSource => exact (source_alone (.inr pc) marks).mono fun _ _ outcome => outcome.1
  | markCas ptr1 =>
    simp only [HelpFrame.Formed,pc] at formed
    apply Ends.next
    simp only [helpRelocate,pc,Memory.compareAndSwap]
    split
    · refine (source_alone (f := f.goto _) (.inr rfl) ?_).mono fun _ _ outcome => outcome.1
      simpa [Memory.write_table,HelpFrame.goto] using formed.2.1
    · exact (source_alone (f := f.goto _) (.inr rfl) marks).mono fun _ _ outcome => outcome.1
  | deref ptr1 =>
    apply Ends.next
    simp only [helpRelocate,pc]
    exact dest_ends (f := f.goto _) rfl marks
  | readDest ptr1 newHash => exact dest_ends pc marks
  | recheckSource ptr1 ptr2 newHash => exact recheck_ends pc marks
  | copyCas ptr1 ptr2 newHash => exact copy_ends pc
  | clearCas ptr1 newHash => exact clear_ends pc
  | sameCas ptr1 newHash => exact (same_alone pc).mono fun _ _ outcome => outcome.1
  | failCas ptr1 newHash => exact (fail_alone pc).mono fun _ _ outcome => outcome.1

end

end CuckooFilter.LockFree
