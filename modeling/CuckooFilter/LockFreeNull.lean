import CuckooFilter.LockFreeBounds
import CuckooFilter.LockFreeHazard

/-! Null entries. `help_relocate` tests the mark of the word it follows and not its pointer,
`insert` the pointer of the word it replaces and not its mark; no marked word is null. -/
namespace CuckooFilter.LockFree

variable {cfg : Config} {tid : Nat} {m : Memory} {s t : System} {f : RelocateFrame}

/-- The pointers that `relocate` itself follows were tested. -/
def RelocateFrame.Follows (f : RelocateFrame) : Prop :=
  match f.pc with
  | .discoverDeref _ ptr | .traverseDeref _ _ ptr => getRealPointer ptr ≠ 0
  | _ => True

theorem relocate_follows (cfg : Config) (tid : Nat) (m : Memory) (f : RelocateFrame) :
    (relocate cfg tid m f).2.Holds RelocateFrame.Follows := by
  refine Flow.holds_of_running fun g flow => ?_
  cases relocate_running flow with
  | occupied _ _ present => exact present
  | source _ present => exact present
  | _ => trivial

theorem reachable_follows (reachable : Reachable cfg s)
    (inside : (s.control tid).relocate? = some f) : f.Follows := by
  have all : ∀ tid f, (s.control tid).relocate? = some f → f.Follows := by
    refine Transition.run_invariant
      (fun s => ∀ tid f, (s.control tid).relocate? = some f → f.Follows) ?_ ?_ reachable
    · rintro s t before ⟨mover,-,moved⟩ tid f inside
      exact relocate_property RelocateFrame.Follows (fun _ _ => trivial)
        (fun _ _ _ _ => relocate_follows _ _ _ _) before moved inside
    · rintro tid f ⟨⟩
  exact all tid f inside

theorem help_reads_nonnull {f : HelpFrame} (formed : f.Formed cfg m)
    (reads : f.reads? = some entry) : entry ≠ 0 := by
  cases pc : f.pc with
  | deref ptr1 =>
    simp only [HelpFrame.reads?,pc] at reads
    cases reads
    simp only [HelpFrame.Formed,pc] at formed
    exact formed.2
  | _ => simp [HelpFrame.reads?,pc] at reads

theorem find_reads_nonnull {f : FindFrame} (compares : f.Compares)
    (formed : ∀ g, f.help? = some g → g.Formed cfg m) (reads : f.reads? = some entry) :
    entry ≠ 0 := by
  cases pc : f.pc with
  | compareFirst | compareSecond =>
    simp only [FindFrame.reads?,pc] at reads
    cases reads
    simp only [FindFrame.Compares,pc] at compares
    exact compares.1
  | help frame =>
    simp only [FindFrame.reads?,pc] at reads
    exact help_reads_nonnull (formed frame (by simp [FindFrame.help?,pc])) reads
  | _ => simp [FindFrame.reads?,pc] at reads

theorem relocate_reads_nonnull (follows : f.Follows)
    (formed : ∀ g, f.help? = some g → g.Formed cfg m) (reads : f.reads? = some entry) :
    entry ≠ 0 := by
  cases pc : f.pc with
  | discoverDeref | traverseDeref =>
    simp only [RelocateFrame.reads?,pc] at reads
    cases reads
    simpa only [RelocateFrame.Follows,pc] using follows
  | discoverHelp depth frame | traverseHelp depth i frame | traverseMove depth i frame =>
    simp only [RelocateFrame.reads?,pc] at reads
    exact help_reads_nonnull (formed frame (by simp [RelocateFrame.help?,pc])) reads
  | _ => simp [RelocateFrame.reads?,pc] at reads

theorem reads_nonnull (reachable : Reachable cfg s) (reads : (s.control tid).reads? = some entry) :
    entry ≠ 0 := by
  have formed := reachable_formed reachable
  have help := formed.help tid
  have control := formed.control tid
  cases site : s.control tid with
  | idle => rw [site] at reads; cases reads
  | insert frame =>
    rw [site] at help reads
    obtain ⟨call,inside,reads⟩ := Option.bind_eq_some_iff.mp reads
    have within : (s.control tid).relocate? = some call := by
      rw [site]
      exact inside
    have follows := reachable_follows reachable within
    refine relocate_reads_nonnull follows (fun g nested => help g ?_) reads
    rw [Control.help?,inside]
    exact nested
  | find key frame =>
    rw [site] at help reads control
    exact find_reads_nonnull control help reads
  | remove frame =>
    rw [site] at help reads control
    obtain ⟨search,inside,reads⟩ := Option.bind_eq_some_iff.mp reads
    refine find_reads_nonnull (control.1 search inside) (fun g nested => help g ?_) reads
    rw [Control.help?,inside]
    exact nested

/-- A mark stands on an entry. So no null entry is read, and a word that `insert` found empty
and still finds in its slot has no mark. -/
theorem no_null_entry (reachable : Reachable cfg s) :
    (∀ b i, getMarked (s.memory.hashTable b i) = true →
      getRealPointer (s.memory.hashTable b i) ≠ 0) ∧
    (∀ tid entry, (s.control tid).reads? = some entry → entry ≠ 0) ∧
    ∀ tid frame i second ptr1, s.control tid = .insert frame → frame.pc = .store i second ptr1 →
      s.memory.hashTable (frame.bucket second) i = ptr1 → getMarked ptr1 = false := by
  have formed := reachable_formed reachable
  refine ⟨formed.marked,fun _ _ => reads_nonnull reachable,?_⟩
  intro tid frame i second ptr1 site pc found
  have control := formed.control tid
  rw [site] at control
  have empty := control i second ptr1 pc
  cases marked : getMarked ptr1 with
  | false => rfl
  | true =>
    rw [← found] at marked empty
    exact absurd empty (formed.marked _ _ marked)

/-- The `a` of bucket 0 is marked and about to be followed. -/
def followingState : System := endState sampleConfig (kickedSchedule ++ runs 0 9)

theorem following_no_null_entry :
    (∀ b i, getMarked (followingState.memory.hashTable b i) = true →
      getRealPointer (followingState.memory.hashTable b i) ≠ 0) ∧
    (∀ tid entry, (followingState.control tid).reads? = some entry → entry ≠ 0) ∧
    ∀ tid frame i second ptr1, followingState.control tid = .insert frame →
      frame.pc = .store i second ptr1 →
      followingState.memory.hashTable (frame.bucket second) i = ptr1 → getMarked ptr1 = false :=
  no_null_entry (endState_reachable sampleConfig (kickedSchedule ++ runs 0 9))

end CuckooFilter.LockFree
