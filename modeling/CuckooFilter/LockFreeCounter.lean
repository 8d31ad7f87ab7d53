import CuckooFilter.LockFreePlacement

/-! Slot words never come back. A slot's counter never falls, and a word with an
entry that was replaced is behind its slot for good: the counter is higher, or at
the same counter the entry is another one or has gained the mark. -/
namespace CuckooFilter.LockFree

/-- The fields of a slot word across one step. -/
inductive SlotChange (before : Control) (old new : TablePointer) : Prop where
  | kept (same : new = old) : SlotChange before old new
  | raised (higher : getCounter old < getCounter new) : SlotChange before old new
  | stored (counter : getCounter new = getCounter old)
      (entry : before.unstored? = some (getRealPointer new)) : SlotChange before old new
  | emptied (counter : getCounter new = getCounter old) (empty : getRealPointer new = 0) :
      SlotChange before old new
  | marked (counter : getCounter new = getCounter old)
      (real : getRealPointer new = getRealPointer old) (mark : getMarked new = true) :
      SlotChange before old new

theorem raisedCounter_gt (ptr1 ptr2 : TablePointer) :
    getCounter ptr1 < raisedCounter ptr1 ptr2 ∧ getCounter ptr2 < raisedCounter ptr1 ptr2 := by
  unfold raisedCounter
  split <;> omega

theorem slotStep_change {before : Control}
    (owned : ∀ entry, before.unstored? = some entry → Fits entry)
    (changed : SlotStep m before b i word) : SlotChange before (m.hashTable b i) word := by
  cases changed with
  | kept same => exact .kept same
  | @store frame second ptr1 site pc bucket found created =>
    have own : before.unstored? = some frame.newEntry := by simp [site,Control.unstored?,pc]
    have fits := owned _ own
    refine .stored ?_ ?_
    · rw [createPointer_counter created fits,found]
    · rw [createPointer_real created fits,own]
  | take site pc bucket slot found created =>
    refine .emptied ?_ (createPointer_real created null_fits)
    rw [createPointer_counter created null_fits,found]
  | mark inside pc bucket slot found same =>
    rw [same,found]
    exact .marked (getNewMark_counter _ _) (getNewMark_real _ _) (getNewMark_marked _ _)
  | copy inside pc slot found created =>
    refine .raised ?_
    rw [createPointer_counter created (getRealPointer_fits _),found]
    exact (raisedCounter_gt _ _).2
  | clear inside pc bucket slot found created =>
    refine .raised ?_
    rw [createPointer_counter created null_fits,found]
    omega
  | complete inside pc slot found created =>
    refine .raised ?_
    rw [createPointer_counter created null_fits,found]
    omega
  | rollBack inside pc slot found created =>
    refine .raised ?_
    rw [createPointer_counter created (getRealPointer_fits _),found]
    omega

theorem slotChange_counter {before : Control} (change : SlotChange before old new) :
    getCounter old ≤ getCounter new := by
  cases change with
  | kept same => rw [same]
  | raised higher => exact Nat.le_of_lt higher
  | stored counter => exact counter.ge
  | emptied counter => exact counter.ge
  | marked counter => exact counter.ge

theorem step_change (sound : Sound cfg s) (moved : StepBy cfg tid s t) (b i : Nat) :
    SlotChange (s.control tid) (s.memory.hashTable b i) (t.memory.hashTable b i) :=
  slotStep_change (fun _ own => sound_known sound own) (threadStep_slot (stepBy_thread moved) b i)

/-- What every step keeps from `related` keeps along a run from a reachable state. -/
theorem run_from (related : System → System → Prop) (refl : ∀ s, related s s)
    (trans : ∀ s t u, related s t → related t u → related s u)
    (single : ∀ s t tid, Sound cfg s → StepBy cfg tid s t → related s t)
    (reachable : Reachable cfg s) (run : Run cfg condition s t) : related s t :=
  Transition.run_related (Sound cfg) related (fun _ _ sound ⟨_,_,moved⟩ => sound_step sound moved)
    refl trans (fun s t sound ⟨tid,_,moved⟩ => single s t tid sound moved) (reachable_sound reachable) run

theorem counter_monotone (reachable : Reachable cfg s) (run : Run cfg condition s t) (b i : Nat) :
    getCounter (s.memory.hashTable b i) ≤ getCounter (t.memory.hashTable b i) :=
  run_from (fun s t =>
      getCounter (s.memory.hashTable b i) ≤ getCounter (t.memory.hashTable b i))
    (fun _ => le_refl _) (fun _ _ _ => le_trans)
    (fun _ _ _ sound moved => slotChange_counter (step_change sound moved b i)) reachable run

/-- The slot word is beyond `word` and cannot become it again. -/
def Past (word now : TablePointer) : Prop :=
  getCounter word < getCounter now ∨
    getCounter now = getCounter word ∧ (getRealPointer now ≠ getRealPointer word ∨
      getMarked now = true ∧ getMarked word = false)

theorem past_ne (past : Past word now) : now ≠ word := by
  rintro rfl
  rcases past with higher | ⟨-,other | ⟨marked,unmarked⟩⟩
  · exact absurd higher (lt_irrefl _)
  · exact other rfl
  · rw [marked] at unmarked; contradiction

/-- An entry outside every insertion that is still going on. -/
def Known (s : System) (entry : Address) : Prop :=
  s.memory.heap entry ≠ none ∧ ∀ tid, (s.control tid).unstored? ≠ some entry

theorem known_slot (sound : Sound cfg s) (present : getRealPointer (s.memory.hashTable b i) ≠ 0) :
    Known s (getRealPointer (s.memory.hashTable b i)) :=
  ⟨sound.slots b i present,fun tid owns => (sound.unshared tid _ owns).slots b i rfl⟩

theorem known_cell (sound : Sound cfg s) (member : cell ∈ (s.control tid).held)
    (present : getRealPointer cell.word ≠ 0) : Known s (getRealPointer cell.word) :=
  ⟨sound.cells tid cell member present,
    fun other owns => (sound.unshared other _ owns).cells tid cell member rfl⟩

theorem known_entry {x : Transfer} (sound : Sound cfg s) (stored : x ∈ s.memory.stored) :
    Known s x.entry := by
  refine ⟨by simp [(sound.stored x stored).2],?_⟩
  intro tid owns
  exact (sound.unshared tid _ owns).stored x stored rfl

theorem known_step (known : Known s entry) (moved : StepBy cfg tid s t) : Known t entry := by
  have stepped := stepBy_thread moved
  refine ⟨heap_allocated stepped known.1,?_⟩
  intro other owns
  by_cases same : other = tid
  · subst other
    rcases newEntry_step stepped owns with had | fresh
    · exact known.2 tid had
    · exact known.1 fresh.2.2
  · rw [stepBy_other moved same] at owns
    exact known.2 other owns

theorem past_of_change {before : Control} (change : SlotChange before old new) (replaced : new ≠ old)
    (present : getRealPointer old ≠ 0) (shared : before.unstored? ≠ some (getRealPointer old)) :
    Past old new := by
  cases change with
  | kept same => exact absurd same replaced
  | raised higher => exact .inl higher
  | stored counter entry =>
    refine .inr ⟨counter,.inl ?_⟩
    intro same
    exact shared (same ▸ entry)
  | emptied counter empty => exact .inr ⟨counter,.inl fun same => present (same.symm.trans empty)⟩
  | marked counter real mark =>
    refine .inr ⟨counter,.inr ⟨mark,Bool.eq_false_iff.mpr fun was => ?_⟩⟩
    exact replaced (pointer_ext counter real (mark.trans was.symm))

theorem past_change {before : Control} (past : Past word old) (change : SlotChange before old new)
    (present : getRealPointer word ≠ 0) (shared : before.unstored? ≠ some (getRealPointer word)) :
    Past word new := by
  rcases past with higher | ⟨level,other⟩
  · exact .inl (higher.trans_le (slotChange_counter change))
  cases change with
  | kept same => rw [same]; exact .inr ⟨level,other⟩
  | raised higher => exact .inl (level ▸ higher)
  | stored counter entry =>
    refine .inr ⟨counter.trans level,.inl ?_⟩
    intro same
    exact shared (same ▸ entry)
  | emptied counter empty =>
    exact .inr ⟨counter.trans level,.inl fun same => present (same.symm.trans empty)⟩
  | marked counter real mark =>
    refine .inr ⟨counter.trans level,?_⟩
    rcases other with different | ⟨-,unmarked⟩
    · exact .inl (real ▸ different)
    · exact .inr ⟨mark,unmarked⟩

/-- A word with an entry that left its slot during a run is past at its end. -/
theorem past_of_replaced (reachable : Reachable cfg s) (run : Run cfg condition s t)
    (present : getRealPointer (s.memory.hashTable b i) ≠ 0)
    (replaced : t.memory.hashTable b i ≠ s.memory.hashTable b i) :
    Past (s.memory.hashTable b i) (t.memory.hashTable b i) := by
  have both := Transition.run_invariant
    (fun u => Sound cfg u ∧ Known u (getRealPointer (s.memory.hashTable b i)) ∧
      (u.memory.hashTable b i = s.memory.hashTable b i ∨
        Past (s.memory.hashTable b i) (u.memory.hashTable b i)))
    (fun u v ⟨sound,known,here⟩ ⟨tid,_,moved⟩ => by
      refine ⟨sound_step sound moved,known_step known moved,?_⟩
      have change := step_change sound moved b i
      rcases here with same | past
      · by_cases kept : v.memory.hashTable b i = s.memory.hashTable b i
        · exact .inl kept
        · rw [same] at change
          exact .inr (past_of_change change kept present (known.2 tid))
      · exact .inr (past_change past change present (known.2 tid)))
    ⟨reachable_sound reachable,known_slot (reachable_sound reachable) present,.inl rfl⟩ run
  exact both.2.2.resolve_left replaced

/-- Every word a thread remembers was read by it, from the slot it is remembered for. -/
theorem cell_read (reachable : Reachable cfg t) (member : cell ∈ (t.control tid).held) :
    ∃ s s', Reachable cfg s ∧ StepBy cfg tid s s' ∧ Run cfg (fun _ _ => True) s' t ∧
      s.memory.hashTable cell.bucket cell.slot = cell.word ∧ cell ∈ (s'.control tid).held := by
  induction reachable with
  | refl => simp [System.initial,Control.held] at member
  | @tail s t front last ih =>
    obtain ⟨mover,-,moved⟩ := last
    have origin : cell ∈ (s.control tid).held ∨
        tid = mover ∧ s.memory.hashTable cell.bucket cell.slot = cell.word := by
      by_cases same : tid = mover
      · subst mover
        exact (cell_step (reachable_sound front) moved member).imp_right fun read => ⟨rfl,read⟩
      · rw [stepBy_other moved same] at member
        exact .inl member
    rcases origin with known | ⟨rfl,read⟩
    · obtain ⟨r,r',reached,earlier,run,word,held⟩ := ih known
      exact ⟨r,r',reached,earlier,run.tail ⟨mover,trivial,moved⟩,word,held⟩
    · exact ⟨s,t,front,moved,.refl,read,member⟩

end CuckooFilter.LockFree
