import CuckooFilter.LockFreeLoss
import CuckooFilter.LockFreeHistory
import Mathlib.Data.List.Perm.Subperm

/-! No resurrection while removals take last copies only. Between the copy of an
entry and the clearing of its source two slots hold it; a removal that takes the copy
then leaves the marked source, and the next helper copies the entry back. Away from
such removals the copy is there as long as the source is, so a source that is still
in place at the copy belongs to an entry that no removal has taken. -/
namespace CuckooFilter.LockFree

theorem cell_behind (reachable : Reachable cfg s) (member : cell ∈ (s.control tid).held) :
    getCounter cell.word ≤ getCounter (s.memory.hashTable cell.bucket cell.slot) := by
  obtain ⟨r,r',reached,read,run,word,-⟩ := cell_read reachable member
  rw [← word]
  exact counter_monotone reached (.head ⟨_,trivial,read⟩ run) _ _

theorem cell_here_or_past (reachable : Reachable cfg s) (member : cell ∈ (s.control tid).held)
    (present : getRealPointer cell.word ≠ 0) :
    s.memory.hashTable cell.bucket cell.slot = cell.word ∨
      Past cell.word (s.memory.hashTable cell.bucket cell.slot) := by
  obtain ⟨r,r',reached,read,run,word,-⟩ := cell_read reachable member
  by_cases here : s.memory.hashTable cell.bucket cell.slot = cell.word
  · exact .inl here
  · rw [← word] at present here ⊢
    exact .inr (past_of_replaced reached (.head ⟨_,trivial,read⟩ run) present here)

theorem at_two_buckets {cfg : Config} {x : Transfer} (first : x.At cfg b i) (second : x.At cfg c i)
    (third : x.At cfg d i) (apart : b ≠ c) (apart' : d ≠ c) : d = b := by
  obtain ⟨-,first⟩ := first
  obtain ⟨-,second⟩ := second
  obtain ⟨-,third⟩ := third
  rcases second with home | away
  · rw [home] at apart apart'
    exact (third.resolve_left apart').trans (first.resolve_left apart).symm
  · rw [away] at apart apart'
    exact (third.resolve_right apart').trans (first.resolve_right apart).symm

theorem at_fixed {cfg : Config} {x : Transfer} (power : cfg.tableSize = 2 ^ e)
    (place : x.At cfg b i)
    (fixed : getNextHashIndex cfg.tableSize b (cfg.md5Fingerprint x.key) = b)
    (other : x.At cfg c j) : c = b := by
  rcases place with ⟨-,home | away⟩
  · rw [home] at fixed ⊢
    rcases other.2 with same | same
    · exact same
    · exact same.trans fixed
  · rw [away,getNextHashIndex_involutive power (home_lt cfg x)] at fixed
    rw [away]
    rcases other.2 with same | same
    · exact same.trans fixed
    · exact same

/-- No other slot of the same index holds the entry of `word` with its counter. -/
def Differs (s : System) (word : TablePointer) (b i : Nat) : Prop :=
  ∀ c, c ≠ b → getRealPointer (s.memory.hashTable c i) = getRealPointer word →
    getCounter (s.memory.hashTable c i) ≠ getCounter word

/-- What a call of `help_relocate` knows between its reads and its last
compare-and-swap: a destination that has received the entry meanwhile is past the
word read there, the source is still in place at a copy that can succeed, and a
source that is still in place at the clear has its copy. -/
def HelpFrame.Tracks (m : Memory) (f : HelpFrame) : Prop :=
  let source := m.hashTable f.tableIdx f.slotIdx
  match f.pc with
  | .recheckSource ptr1 ptr2 newHash =>
    (newHash = f.tableIdx → Past ptr1 source) ∧
      (getRealPointer (m.hashTable newHash f.slotIdx) = getRealPointer ptr1 →
        getCounter ptr2 < getCounter (m.hashTable newHash f.slotIdx))
  | .copyCas ptr1 ptr2 newHash => newHash ≠ f.tableIdx ∧
      (getCounter ptr2 < getCounter (m.hashTable newHash f.slotIdx) ∨
        source = ptr1 ∧ getRealPointer (m.hashTable newHash f.slotIdx) ≠ getRealPointer ptr1)
  | .clearCas ptr1 newHash => newHash ≠ f.tableIdx ∧
      (source = ptr1 → getRealPointer (m.hashTable newHash f.slotIdx) = getRealPointer ptr1 ∧
        getCounter ptr1 < getCounter (m.hashTable newHash f.slotIdx))
  | _ => True

/-- A removal is about to take an entry out of one slot while another holds it. -/
def TakesCopy (cfg : Config) (tid : Nat) (s : System) : Prop :=
  ∃ frame location ptr1, s.control tid = .remove frame ∧ frame.pc = .cas location ptr1 ∧
    s.memory.hashTable (frame.hashVal location) (location % numItemsPerEntry) = ptr1 ∧
    ∃ b < cfg.tableSize, b ≠ frame.hashVal location ∧
      getRealPointer (s.memory.hashTable b (location % numItemsPerEntry)) = getRealPointer ptr1

instance (cfg : Config) (tid : Nat) (s : System) : Decidable (TakesCopy cfg tid s) :=
  match site : s.control tid with
  | .remove frame =>
    match pc : frame.pc with
    | .cas location ptr1 => decidable_of_iff
        (s.memory.hashTable (frame.hashVal location) (location % numItemsPerEntry) = ptr1 ∧
          ∃ b < cfg.tableSize, b ≠ frame.hashVal location ∧
            getRealPointer (s.memory.hashTable b (location % numItemsPerEntry)) =
              getRealPointer ptr1) (by
        constructor
        · rintro ⟨found,copy⟩
          exact ⟨frame,location,ptr1,site,pc,found,copy⟩
        · rintro ⟨frame',location',ptr1',site',pc',found,copy⟩
          cases site.symm.trans site'
          cases pc.symm.trans pc'
          exact ⟨found,copy⟩)
    | .find _ => isFalse (by
        rintro ⟨frame',_,_,site',pc',-⟩
        cases site.symm.trans site'
        rw [pc] at pc'; contradiction)
  | .idle | .insert _ | .find _ _ => isFalse (by
      rintro ⟨_,_,_,site',-⟩
      rw [site] at site'; contradiction)

structure Single (cfg : Config) (s : System) : Prop where
  reachable : Reachable cfg s
  apart : ∀ b i, getRealPointer (s.memory.hashTable b i) ≠ 0 →
    Differs s (s.memory.hashTable b i) b i
  remembered : ∀ tid, ∀ cell ∈ (s.control tid).held, getRealPointer cell.word ≠ 0 →
    Differs s cell.word cell.bucket cell.slot
  tracks : ∀ tid f, (s.control tid).help? = some f → f.Tracks s.memory
  known : ∀ entry ∈ s.memory.taken, entry ∈ s.memory.entries
  gone : ∀ entry ∈ s.memory.taken, ∀ b i, getRealPointer (s.memory.hashTable b i) ≠ entry
  once : s.memory.taken.Nodup
  matched : ∀ x ∈ s.memory.removed, s.memory.str x.entry = cfg.md5Fingerprint x.key

theorem single_initial (cfg : Config) : Single cfg System.initial := by
  constructor <;> simp [System.initial,Memory.initial,Memory.taken,Control.held,Control.help?]
  exact .refl

section

variable {cfg : Config} {s t : System} {f : HelpFrame}

theorem frame_cell (inside : (s.control tid).help? = some f) (member : cell ∈ f.held) :
    cell ∈ (s.control tid).held := help_held inside ▸ member

theorem target_alternate (sound : Sound cfg s) (stored : x ∈ s.memory.stored)
    (entry : getRealPointer ptr1 = x.entry) :
    f.target cfg s.memory ptr1 =
      getNextHashIndex cfg.tableSize f.tableIdx (cfg.md5Fingerprint x.key) := by
  rw [HelpFrame.target,entry,Memory.str,(sound.stored x stored).2]
  rfl

/-- Lines 415 and 424 find the source word in the destination only when both are one
slot. -/
theorem destination_is_source (single : Single cfg s) (inside : (s.control tid).help? = some f)
    (held : ⟨f.tableIdx,f.slotIdx,ptr1⟩ ∈ f.held) (present : getRealPointer ptr1 ≠ 0)
    (found : s.memory.hashTable b f.slotIdx = ptr1) : b = f.tableIdx := by
  by_contra apart
  have differs := single.remembered tid _ (frame_cell inside held) present b apart
  rw [found] at differs
  exact differs rfl rfl

theorem copy_source (single : Single cfg s) (inside : (s.control tid).help? = some f)
    (pc : f.pc = .copyCas ptr1 ptr2 newHash) (found : s.memory.hashTable newHash f.slotIdx = ptr2) :
    newHash ≠ f.tableIdx ∧ s.memory.hashTable f.tableIdx f.slotIdx = ptr1 := by
  have tracks := single.tracks tid f inside
  simp only [HelpFrame.Tracks,pc,found] at tracks
  exact ⟨tracks.1,(tracks.2.resolve_left (lt_irrefl _)).1⟩

/-- A slot that receives a known entry gets a higher counter. -/
theorem arrival_raises (sound : Sound cfg s) (moved : StepBy cfg tid s t) (known : Known s entry)
    (present : entry ≠ 0) (before : getRealPointer (s.memory.hashTable b i) ≠ entry)
    (after : getRealPointer (t.memory.hashTable b i) = entry) :
    getCounter (s.memory.hashTable b i) < getCounter (t.memory.hashTable b i) := by
  cases step_change sound moved b i with
  | kept same => rw [same] at after; contradiction
  | raised higher => exact higher
  | stored counter owns => rw [after] at owns; exact absurd owns (known.2 tid)
  | emptied counter empty => rw [after] at empty; contradiction
  | marked counter real => rw [after] at real; exact absurd real.symm before

/-- A word keeps differing from the slots of its entry: a copy made from its slot is
above it, and nothing else gives the entry a slot. -/
theorem differs_step (power : cfg.tableSize = 2 ^ e) (single : Single cfg s)
    (moved : StepBy cfg tid s t) (stored : x ∈ s.memory.stored) (entry : getRealPointer word = x.entry)
    (place : x.At cfg b i) (behind : getCounter word ≤ getCounter (s.memory.hashTable b i))
    (differs : Differs s word b i) : Differs t word b i := by
  intro c apart holds
  have placed := reachable_placed power single.reachable
  have sound := placed.accounted.formed.sound
  have present : getRealPointer word ≠ 0 := entry ▸ (sound.stored x stored).1
  cases threadStep_slot (stepBy_thread moved) c i with
  | kept same => rw [same] at holds ⊢; exact differs c apart holds
  | @store frame second ptr1 site pc bucket found created =>
    have own : (s.control tid).unstored? = some frame.newEntry := by
      simp [site,Control.unstored?,pc]
    rw [createPointer_real created (sound_known sound own),entry] at holds
    exact absurd (holds ▸ own) ((known_entry sound stored).2 tid)
  | take _ _ _ _ _ created =>
    rw [createPointer_real created null_fits] at holds
    exact absurd holds.symm present
  | mark inside pc bucket slot found same =>
    rw [same,getNewMark_real,← found] at holds
    rw [same,getNewMark_counter,← found]
    exact differs c apart holds
  | @copy f ptr1 ptr2 inside pc slot found created =>
    subst slot
    rw [createPointer_real created (getRealPointer_fits _),entry] at holds
    rw [createPointer_counter created (getRealPointer_fits _)]
    obtain ⟨other,source⟩ := copy_source single inside pc found
    have home := placed.slots x stored _ _ (source ▸ holds)
    have shape := placed.accounted.formed.help tid f inside
    simp only [HelpFrame.Formed,pc] at shape
    have away : x.At cfg c f.slotIdx := by
      rw [shape.2.1,target_alternate sound stored holds]
      exact at_alternate power home
    have here : f.tableIdx = b := at_two_buckets place away home (Ne.symm apart) (Ne.symm other)
    rw [← here,source] at behind
    have higher := (raisedCounter_gt ptr1 ptr2).1
    omega
  | clear _ _ _ _ _ created =>
    rw [createPointer_real created null_fits] at holds
    exact absurd holds.symm present
  | complete _ _ _ _ created =>
    rw [createPointer_real created null_fits] at holds
    exact absurd holds.symm present
  | @rollBack f ptr1 inside pc slot found created =>
    subst slot
    rw [createPointer_real created (getRealPointer_fits _)] at holds
    have shape := placed.accounted.formed.help tid f inside
    simp only [HelpFrame.Formed,pc] at shape
    have same := destination_is_source single inside (by simp [HelpFrame.held,pc]) shape.1.2 found
    have here := placed.slots x stored c f.slotIdx (by rw [found,holds,entry])
    have fixed : c = getNextHashIndex cfg.tableSize f.tableIdx (cfg.md5Fingerprint x.key) :=
      shape.2.trans (target_alternate sound stored (holds.trans entry))
    rw [← same] at fixed
    exact absurd (at_fixed power here fixed.symm place).symm apart

/-- A marked source keeps its word while its copy is not there. -/
theorem source_kept (single : Single cfg s)
    (moved : StepBy cfg tid s t) (stored : x ∈ s.memory.stored) (entry : getRealPointer word = x.entry)
    (marked : getMarked word = true) (source : s.memory.hashTable b i = word)
    (away : getNextHashIndex cfg.tableSize b (cfg.md5Fingerprint x.key) ≠ b)
    (uncopied : getRealPointer (s.memory.hashTable
      (getNextHashIndex cfg.tableSize b (cfg.md5Fingerprint x.key)) i) ≠ getRealPointer word) :
    t.memory.hashTable b i = word := by
  have formed := reachable_formed single.reachable
  have present : getRealPointer word ≠ 0 := entry ▸ (formed.sound.stored x stored).1
  cases threadStep_slot (stepBy_thread moved) b i with
  | kept same => exact same.trans source
  | @store frame second ptr1 site pc bucket found =>
    have empty := formed.control tid
    rw [site] at empty
    rw [← source,found] at present
    exact absurd (empty i second ptr1 pc) present
  | @take frame location ptr1 site pc bucket slot found =>
    have unmarked := formed.control tid
    rw [site] at unmarked
    rw [← source,found,(unmarked.2 location ptr1 pc).2.1] at marked
    contradiction
  | @mark f ptr1 inside pc bucket slot found =>
    have shape := formed.help tid f inside
    simp only [HelpFrame.Formed,pc] at shape
    rw [← source,found,shape.2.2] at marked
    contradiction
  | @copy f ptr1 ptr2 inside pc slot found =>
    have shape := formed.help tid f inside
    simp only [HelpFrame.Formed,pc] at shape
    rw [← source,found] at present
    exact absurd shape.2.2 present
  | @clear f ptr1 newHash inside pc bucket slot found =>
    subst bucket slot
    have tracks := single.tracks tid f inside
    have shape := formed.help tid f inside
    simp only [HelpFrame.Tracks,HelpFrame.Formed,pc] at tracks shape
    obtain rfl := found.symm.trans source
    rw [← target_alternate formed.sound stored entry,← shape.2] at uncopied
    exact absurd (tracks.2 found).1 uncopied
  | @complete f ptr1 inside pc slot found =>
    subst slot
    obtain rfl := found.symm.trans source
    have shape := formed.help tid f inside
    simp only [HelpFrame.Formed,pc] at shape
    have same := destination_is_source single inside (by simp [HelpFrame.held,pc]) present found
    have fixed := shape.2.trans (target_alternate formed.sound stored entry)
    rw [← same] at fixed
    exact absurd fixed.symm away
  | @rollBack f ptr1 inside pc slot found =>
    subst slot
    obtain rfl := found.symm.trans source
    have shape := formed.help tid f inside
    simp only [HelpFrame.Formed,pc] at shape
    have same := destination_is_source single inside (by simp [HelpFrame.held,pc]) present found
    have fixed := shape.2.trans (target_alternate formed.sound stored entry)
    rw [← same] at fixed
    exact absurd fixed.symm away

/-- A copy stays while its source does, unless a removal takes it. -/
theorem copy_kept (power : cfg.tableSize = 2 ^ e) (single : Single cfg s)
    (moved : StepBy cfg tid s t) (lasts : ¬TakesCopy cfg tid s) (stored : x ∈ s.memory.stored)
    (entry : getRealPointer word = x.entry) (source : s.memory.hashTable b i = word)
    (away : c ≠ b) (alternate : c = getNextHashIndex cfg.tableSize b (cfg.md5Fingerprint x.key))
    (holds : getRealPointer (s.memory.hashTable c i) = getRealPointer word)
    (higher : getCounter word < getCounter (s.memory.hashTable c i)) :
    getRealPointer (t.memory.hashTable c i) = getRealPointer word := by
  have placed := reachable_placed power single.reachable
  have formed := placed.accounted.formed
  have present : getRealPointer word ≠ 0 := entry ▸ (formed.sound.stored x stored).1
  have place := placed.slots x stored b i (source ▸ entry)
  have back : getNextHashIndex cfg.tableSize c (cfg.md5Fingerprint x.key) = b := by
    rw [alternate,getNextHashIndex_involutive power (at_lt place)]
  cases threadStep_slot (stepBy_thread moved) c i with
  | kept same => rw [same,holds]
  | @store frame second ptr1 site pc bucket found =>
    have empty := formed.control tid
    rw [site] at empty
    rw [← holds,found] at present
    exact absurd (empty i second ptr1 pc) present
  | @take frame location ptr1 site pc bucket slot found =>
    subst bucket slot
    refine absurd ⟨frame,location,ptr1,site,pc,found,b,at_lt place,Ne.symm away,?_⟩ lasts
    rw [source,← holds,found]
  | mark inside pc bucket slot found same => rw [same,getNewMark_real,← found,holds]
  | @copy f ptr1 ptr2 inside pc slot found =>
    have shape := formed.help tid f inside
    simp only [HelpFrame.Formed,pc] at shape
    rw [← holds,found] at present
    exact absurd shape.2.2 present
  | @clear f ptr1 newHash inside pc bucket slot found =>
    subst bucket slot
    have tracks := single.tracks tid f inside
    have shape := formed.help tid f inside
    simp only [HelpFrame.Tracks,HelpFrame.Formed,pc] at tracks shape
    rw [found] at holds higher
    rw [target_alternate formed.sound stored (holds.trans entry),back] at shape
    have above := (tracks.2 found).2
    rw [shape.2,source] at above
    omega
  | @complete f ptr1 inside pc slot found =>
    subst slot
    have shape := formed.help tid f inside
    simp only [HelpFrame.Formed,pc] at shape
    rw [found] at holds
    have same := destination_is_source single inside (by simp [HelpFrame.held,pc]) shape.1.2 found
    have fixed := shape.2.trans (target_alternate formed.sound stored (holds.trans entry))
    rw [← same,back] at fixed
    exact absurd fixed away
  | @rollBack f ptr1 inside pc slot found created =>
    rw [createPointer_real created (getRealPointer_fits _),← found,holds]

theorem cell_stored (placed : Placed cfg s) (member : cell ∈ (s.control tid).held)
    (present : getRealPointer cell.word ≠ 0) :
    ∃ x ∈ s.memory.stored, getRealPointer cell.word = x.entry ∧ x.At cfg cell.bucket cell.slot := by
  obtain ⟨x,stored,entry⟩ := List.mem_map.mp (placed.accounted.cells tid cell member present)
  exact ⟨x,stored,entry.symm,placed.cells x stored tid cell member entry.symm⟩

theorem slot_stored (placed : Placed cfg s) (present : getRealPointer (s.memory.hashTable b i) ≠ 0) :
    ∃ x ∈ s.memory.stored, getRealPointer (s.memory.hashTable b i) = x.entry ∧ x.At cfg b i := by
  obtain ⟨x,stored,entry⟩ := List.mem_map.mp (placed.accounted.slots b i present)
  exact ⟨x,stored,entry.symm,placed.slots x stored b i entry.symm⟩

theorem tracks_stable (power : cfg.tableSize = 2 ^ e) (single : Single cfg s)
    (moved : StepBy cfg tid s t) (lasts : ¬TakesCopy cfg tid s) {other : Nat}
    (inside : (s.control other).help? = some f) : f.Tracks t.memory := by
  have placed := reachable_placed power single.reachable
  have formed := placed.accounted.formed
  have tracks := single.tracks other f inside
  have shape := formed.help other f inside
  have monotone (b i : Nat) := slotChange_counter (step_change formed.sound moved b i)
  cases pc : f.pc with
  | recheckSource ptr1 ptr2 newHash =>
    simp only [HelpFrame.Tracks,HelpFrame.Formed,pc] at tracks shape ⊢
    have member : ⟨f.tableIdx,f.slotIdx,ptr1⟩ ∈ (s.control other).held :=
      frame_cell inside (by simp [HelpFrame.held,pc])
    have known := known_cell formed.sound member shape.1.2
    refine ⟨?_,?_⟩
    · intro same
      exact past_change (tracks.1 same) (step_change formed.sound moved _ _) shape.1.2 (known.2 tid)
    · intro holds
      by_cases before : getRealPointer (s.memory.hashTable newHash f.slotIdx) = getRealPointer ptr1
      · exact (tracks.2 before).trans_le (monotone _ _)
      · have read : ⟨newHash,f.slotIdx,ptr2⟩ ∈ (s.control other).held :=
          frame_cell inside (by simp [HelpFrame.held,pc])
        have behind := cell_behind single.reachable read
        have raises := arrival_raises formed.sound moved known shape.1.2 before holds
        exact behind.trans_lt raises
  | copyCas ptr1 ptr2 newHash =>
    simp only [HelpFrame.Tracks,HelpFrame.Formed,pc] at tracks shape ⊢
    have member : ⟨f.tableIdx,f.slotIdx,ptr1⟩ ∈ (s.control other).held :=
      frame_cell inside (by simp [HelpFrame.held,pc])
    have known := known_cell formed.sound member shape.1.2
    refine ⟨tracks.1,?_⟩
    rcases tracks.2 with higher | ⟨source,uncopied⟩
    · exact .inl (higher.trans_le (monotone _ _))
    · by_cases holds : getRealPointer (t.memory.hashTable newHash f.slotIdx) = getRealPointer ptr1
      · have read : ⟨newHash,f.slotIdx,ptr2⟩ ∈ (s.control other).held :=
          frame_cell inside (by simp [HelpFrame.held,pc])
        have behind := cell_behind single.reachable read
        exact .inl (behind.trans_lt
          (arrival_raises formed.sound moved known shape.1.2 uncopied holds))
      · obtain ⟨x,stored,entry,-⟩ := cell_stored placed member shape.1.2
        have target := shape.2.1.trans (target_alternate formed.sound stored entry)
        refine .inr ⟨source_kept single moved stored entry shape.1.1 source ?_ ?_,holds⟩
        · rw [← target]; exact tracks.1
        · rw [← target]; exact uncopied
  | clearCas ptr1 newHash =>
    simp only [HelpFrame.Tracks,HelpFrame.Formed,pc] at tracks shape ⊢
    have member : ⟨f.tableIdx,f.slotIdx,ptr1⟩ ∈ (s.control other).held :=
      frame_cell inside (by simp [HelpFrame.held,pc])
    have known := known_cell formed.sound member shape.1.2
    refine ⟨tracks.1,?_⟩
    intro source
    rcases cell_here_or_past single.reachable member shape.1.2 with before | past
    · obtain ⟨holds,higher⟩ := tracks.2 before
      obtain ⟨x,stored,entry,-⟩ := cell_stored placed member shape.1.2
      have target := shape.2.trans (target_alternate formed.sound stored entry)
      exact ⟨copy_kept power single moved lasts stored entry before tracks.1 target holds higher,
        higher.trans_le (monotone _ _)⟩
    · have still := past_change past (step_change formed.sound moved _ _) shape.1.2 (known.2 tid)
      exact absurd source (past_ne still)
  | _ => simp only [HelpFrame.Tracks,pc]

theorem HelpFrame.Tracks.transfer (tracks : f.Tracks m) (table : next.hashTable = m.hashTable) :
    f.Tracks next := by
  simpa only [HelpFrame.Tracks,table] using tracks

theorem tracks_own (power : cfg.tableSize = 2 ^ e) (single : Single cfg s)
    (moved : StepBy cfg tid s t) (lasts : ¬TakesCopy cfg tid s)
    (inside : (s.control tid).help? = some f)
    (stepped : HelpStep cfg s.memory f t.memory (.running after)) : after.Tracks t.memory := by
  have formed := reachable_formed single.reachable
  have tracks := single.tracks tid f inside
  have shape := formed.help tid f inside
  cases stepped with
  | abort => exact tracks_stable power single moved lasts inside
  | @vacant ptr1 newHash pc same empty =>
    simp only [HelpFrame.Formed,pc] at shape
    have member : ⟨f.tableIdx,f.slotIdx,ptr1⟩ ∈ (s.control tid).held :=
      frame_cell inside (by simp [HelpFrame.held,pc])
    refine HelpFrame.Tracks.transfer ⟨?_,?_⟩ same.table
    · intro self
      refine (cell_here_or_past single.reachable member shape.1.2).resolve_left fun here => ?_
      rw [show newHash = f.tableIdx from self] at empty
      exact shape.1.2 ((congrArg getRealPointer here).symm.trans empty)
    · intro holds
      exact absurd (holds.symm.trans empty) shape.1.2
  | @confirm ptr1 ptr2 newHash pc found memory =>
    simp only [HelpFrame.Tracks,pc] at tracks
    refine HelpFrame.Tracks.transfer ⟨?_,?_⟩ (congrArg _ memory)
    · intro self
      exact past_ne (tracks.1 self) found
    · by_cases holds :
          getRealPointer (s.memory.hashTable newHash f.slotIdx) = getRealPointer ptr1
      · exact .inl (tracks.2 holds)
      · exact .inr ⟨found,holds⟩
  | @copy ptr1 ptr2 newHash word pc created found memory =>
    obtain ⟨other,source⟩ := copy_source single inside pc found
    have written : t.memory.hashTable newHash f.slotIdx = word := by
      rw [memory]; simp [Memory.write_table]
    refine ⟨other,fun _ => ?_⟩
    simp only [HelpFrame.goto]
    rw [written,createPointer_real created (getRealPointer_fits _),
      createPointer_counter created (getRealPointer_fits _)]
    exact ⟨rfl,(raisedCounter_gt ptr1 ptr2).1⟩
  | filled =>
    unfold HelpFrame.occupied
    split <;> trivial
  | copyLost =>
    unfold HelpFrame.occupied
    split <;> trivial
  | _ => trivial

theorem tracks_step (power : cfg.tableSize = 2 ^ e) (single : Single cfg s)
    (moved : StepBy cfg tid s t) (lasts : ¬TakesCopy cfg tid s) {other : Nat}
    (inside : (t.control other).help? = some f) : f.Tracks t.memory := by
  cases help_origin moved inside with
  | kept _ was => exact tracks_stable power single moved lasts was
  | called _ entry => subst entry; trivial
  | inside _ was stepped => exact tracks_own power single moved lasts was stepped

theorem apart_step (power : cfg.tableSize = 2 ^ e) (single : Single cfg s)
    (moved : StepBy cfg tid s t) (present : getRealPointer (t.memory.hashTable b i) ≠ 0) :
    Differs t (t.memory.hashTable b i) b i := by
  have placed := reachable_placed power single.reachable
  have unchanged (c : Nat) (same : t.memory.hashTable c i = s.memory.hashTable c i)
      (holds : getRealPointer (s.memory.hashTable c i) ≠ 0) :
      Differs t (s.memory.hashTable c i) c i := by
    obtain ⟨x,stored,entry,place⟩ := slot_stored placed holds
    exact differs_step power single moved stored entry place le_rfl (single.apart c i holds)
  intro c apart holds
  by_cases same : t.memory.hashTable b i = s.memory.hashTable b i
  · rw [same] at present holds ⊢
    exact unchanged b same present c apart holds
  · have other := step_other_slot moved same (c := c) (j := i) (fun both => apart both.1)
    rw [other] at holds ⊢
    exact (unchanged c other (holds ▸ present) b (Ne.symm apart) holds.symm).symm

theorem remembered_step (power : cfg.tableSize = 2 ^ e) (single : Single cfg s)
    (moved : StepBy cfg tid s t) {other : Nat} {cell : Cell} (member : cell ∈ (t.control other).held)
    (present : getRealPointer cell.word ≠ 0) : Differs t cell.word cell.bucket cell.slot := by
  have placed := reachable_placed power single.reachable
  rcases cell_step placed.accounted.formed.sound moved member with known | read
  · obtain ⟨x,stored,entry,place⟩ := cell_stored placed known present
    exact differs_step power single moved stored entry place (cell_behind single.reachable known)
      (single.remembered other cell known present)
  · rw [← read] at present ⊢
    obtain ⟨x,stored,entry,place⟩ := slot_stored placed present
    exact differs_step power single moved stored entry place le_rfl (single.apart _ _ present)

theorem gone_step (single : Single cfg s) (moved : StepBy cfg tid s t)
    (taken : entry ∈ s.memory.taken) : getRealPointer (t.memory.hashTable b i) ≠ entry := by
  intro holds
  have formed := reachable_formed single.reachable
  obtain ⟨x,stored,rfl⟩ := List.mem_map.mp (single.known entry taken)
  have present := (formed.sound.stored x stored).1
  have absent := single.gone x.entry taken
  cases threadStep_slot (stepBy_thread moved) b i with
  | kept same => exact absent b i (same ▸ holds)
  | @store frame second ptr1 site pc bucket found created =>
    have own : (s.control tid).unstored? = some frame.newEntry := by
      simp [site,Control.unstored?,pc]
    rw [createPointer_real created (sound_known formed.sound own)] at holds
    exact (known_entry formed.sound stored).2 tid (holds ▸ own)
  | take _ _ _ _ _ created =>
    rw [createPointer_real created null_fits] at holds
    exact present holds.symm
  | mark inside pc bucket slot found same =>
    rw [same,getNewMark_real,← found] at holds
    exact absent b i holds
  | @copy f ptr1 ptr2 inside pc slot found created =>
    subst slot
    rw [createPointer_real created (getRealPointer_fits _),
      ← (copy_source single inside pc found).2] at holds
    exact absent _ _ holds
  | clear _ _ _ _ _ created =>
    rw [createPointer_real created null_fits] at holds
    exact present holds.symm
  | complete _ _ _ _ created =>
    rw [createPointer_real created null_fits] at holds
    exact present holds.symm
  | rollBack inside pc slot found created =>
    rw [createPointer_real created (getRealPointer_fits _),← found] at holds
    exact absent b i holds

theorem take_last (power : cfg.tableSize = 2 ^ e) (single : Single cfg s)
    (lasts : ¬TakesCopy cfg tid s) (site : s.control tid = .remove frame)
    (pc : frame.pc = .cas location ptr1)
    (found : s.memory.hashTable (frame.hashVal location) (location % numItemsPerEntry) = ptr1)
    (holds : getRealPointer (s.memory.hashTable b i) = getRealPointer ptr1) :
    b = frame.hashVal location ∧ i = location % numItemsPerEntry := by
  have placed := reachable_placed power single.reachable
  have present : getRealPointer ptr1 ≠ 0 := by
    have shape := placed.accounted.formed.control tid
    rw [site] at shape
    exact (shape.2 location ptr1 pc).1
  obtain ⟨x,stored,entry,place⟩ := slot_stored placed (found ▸ present)
  have here := placed.slots x stored b i (by rw [holds,← found,entry])
  have slot := here.1.trans place.1.symm
  refine ⟨?_,slot⟩
  by_contra apart
  exact lasts ⟨frame,location,ptr1,site,pc,found,b,at_lt here,apart,slot ▸ holds⟩

theorem single_step (power : cfg.tableSize = 2 ^ e) (single : Single cfg s)
    (moved : StepBy cfg tid s t) (lasts : ¬TakesCopy cfg tid s) : Single cfg t := by
  have placed := reachable_placed power single.reachable
  have formed := placed.accounted.formed
  have grows {entry : Address} (stored : entry ∈ s.memory.entries) : entry ∈ t.memory.entries := by
    obtain ⟨x,member,rfl⟩ := List.mem_map.mp stored
    exact List.mem_map_of_mem (stored_grows moved member)
  have string {entry : Address} (stored : entry ∈ s.memory.entries) :
      t.memory.str entry = s.memory.str entry := by
    obtain ⟨x,member,rfl⟩ := List.mem_map.mp stored
    exact str_step moved (known_entry formed.sound member).1
  refine ⟨single.reachable.step moved,fun b i => apart_step power single moved,
    fun other cell => remembered_step power single moved,
    fun other f => tracks_step power single moved lasts,?_,?_,?_,?_⟩
  all_goals
    rcases removed_step (stepBy_thread moved) with same | ⟨frame,location,ptr1,site,pc,found,same⟩
  · intro entry taken
    rw [Memory.taken,same] at taken
    exact grows (single.known entry taken)
  · have shape := formed.control tid
    rw [site] at shape
    intro entry taken
    rw [Memory.taken,same] at taken
    rcases List.mem_cons.mp taken with rfl | known
    · exact grows (found ▸ placed.accounted.slots _ _ (found ▸ (shape.2 location ptr1 pc).1))
    · exact grows (single.known entry known)
  · intro entry taken b i
    rw [Memory.taken,same] at taken
    exact gone_step single moved taken
  · intro entry taken b i
    rw [Memory.taken,same] at taken
    rcases List.mem_cons.mp taken with rfl | known
    · intro holds
      have shape := formed.control tid
      rw [site] at shape
      have present := (shape.2 location ptr1 pc).1
      cases stepBy_thread moved with
      | other nested => rw [(nested_heap nested).2.2] at same; simp at same
      | allocate site' => rw [site] at site'; contradiction
      | store site' => rw [site] at site'; contradiction
      | @take frame' location' ptr1' word site' pc' created found' quiet =>
        cases site.symm.trans site'
        cases pc.symm.trans pc'
        rw [quiet.table] at holds
        simp only [Memory.recordRemoved,Memory.write_table] at holds
        split at holds
        · rw [createPointer_real created null_fits] at holds
          exact present holds.symm
        · rename_i apart
          exact apart (take_last power single lasts site pc found holds)
    · exact gone_step single moved known
  · rw [Memory.taken,same]
    exact single.once
  · rw [Memory.taken,same]
    refine List.nodup_cons.mpr ⟨?_,single.once⟩
    intro taken
    exact single.gone _ taken _ _ (congrArg getRealPointer found)
  · intro x member
    rw [same] at member
    rw [string (single.known _ (List.mem_map_of_mem member))]
    exact single.matched x member
  · intro x member
    rw [same] at member
    rcases List.mem_cons.mp member with rfl | known
    · have shape := formed.control tid
      rw [site] at shape
      obtain ⟨present,-,equal⟩ := shape.2 location ptr1 pc
      exact (string (found ▸ placed.accounted.slots _ _ (found ▸ present))).trans equal
    · rw [string (single.known _ (List.mem_map_of_mem known))]
      exact single.matched x known

theorem run_single (power : cfg.tableSize = 2 ^ e)
    (run : Run cfg (fun tid s => ¬TakesCopy cfg tid s) System.initial s) : Single cfg s :=
  Transition.run_invariant (Single cfg)
    (fun _ _ single ⟨_,lasts,moved⟩ => single_step power single moved lasts)
    (single_initial cfg) run

end

theorem removed_le_stored {cfg : Config} {s : System} (single : Single cfg s) (fingerprint : Bytes) :
    s.memory.removed.countP (fun x => cfg.md5Fingerprint x.key = fingerprint) ≤
      s.memory.stored.countP (fun x => cfg.md5Fingerprint x.key = fingerprint) := by
  have sound := (reachable_formed single.reachable).sound
  rw [List.countP_eq_length_filter,List.countP_eq_length_filter]
  have nodup : ((s.memory.removed.filter
      (fun x => cfg.md5Fingerprint x.key = fingerprint)).map Transfer.entry).Nodup :=
    single.once.sublist (List.filter_sublist.map _)
  have subset : (s.memory.removed.filter
        (fun x => cfg.md5Fingerprint x.key = fingerprint)).map Transfer.entry ⊆
      (s.memory.stored.filter
        (fun x => cfg.md5Fingerprint x.key = fingerprint)).map Transfer.entry := by
    intro entry member
    obtain ⟨x,filtered,rfl⟩ := List.mem_map.mp member
    obtain ⟨removed,equal⟩ := List.mem_filter.mp filtered
    obtain ⟨y,stored,same⟩ := List.mem_map.mp
      (single.known x.entry (List.mem_map_of_mem removed))
    refine List.mem_map.mpr ⟨y,List.mem_filter.mpr ⟨stored,?_⟩,same⟩
    have string := single.matched x removed
    rw [← same,Memory.str,(sound.stored y stored).2] at string
    simpa [← show cfg.md5Fingerprint y.key = cfg.md5Fingerprint x.key from string] using equal
  simpa using (List.subperm_of_subset nodup subset).length_le

/-- While removals take last copies only, a taken entry is in no slot again, is taken
once and retired out of the table, and no fingerprint is removed more often than it
was stored. -/
theorem removed_stays_removed (power : cfg.tableSize = 2 ^ e)
    (run : Run cfg (fun tid s => ¬TakesCopy cfg tid s) System.initial s) :
    (∀ x ∈ s.memory.removed, ∀ b i, getRealPointer (s.memory.hashTable b i) ≠ x.entry) ∧
    (s.memory.removed.map Transfer.entry).Nodup ∧
    (∀ fingerprint,
      (s.memory.returned.filterMap removedKey).countP (cfg.md5Fingerprint · = fingerprint) ≤
        (s.memory.returned.filterMap insertedKey).countP (cfg.md5Fingerprint · = fingerprint)) ∧
    ∀ tid, ∀ entry ∈ s.memory.retiredPtrs tid, ∀ b i,
      getRealPointer (s.memory.hashTable b i) ≠ entry := by
  have single := run_single power run
  have answered := reachable_answered run.reachable
  refine ⟨?_,single.once,?_,?_⟩
  · intro x member b i
    exact single.gone x.entry (List.mem_map_of_mem member) b i
  · intro fingerprint
    rw [answered.removed,answered.inserted,List.countP_map,List.countP_map]
    exact removed_le_stored single fingerprint
  · intro tid entry member b i
    exact single.gone entry (answered.retired tid entry member) b i

/-- `a` sits in bucket 1 over an empty slot of bucket 0, and an insertion of `c` moves
it there; the schedule stops before the source is cleared. -/
def copiedSchedule : List (Nat × Action) :=
  inserts 0 keyF 2 2 ++ inserts 0 keyA 4 3 ++ inserts 0 keyC 6 4 ++ inserts 0 keyC 8 6 ++
    inserts 0 keyC 10 8 ++ [(0,.invoke (.remove keyF))] ++ runs 0 3 ++ inserts 0 keyC 12 8 ++
    [(0,.shuffle [0,1,2,3])] ++ runs 0 13

/-- The source is cleared before `a` is removed. -/
def clearedSchedule : List (Nat × Action) :=
  copiedSchedule ++ runs 0 1 ++ [(1,.invoke (.remove keyA))] ++ runs 1 3

theorem cleared_removal :
    ⟨1,keyA,4,0,0⟩ ∈ (endState sampleConfig clearedSchedule).memory.removed ∧
      ∀ b i, getRealPointer ((endState sampleConfig clearedSchedule).memory.hashTable b i) ≠ 4 := by
  have removed : (⟨1,keyA,4,0,0⟩ : Transfer) ∈
      (endState sampleConfig clearedSchedule).memory.removed := by decide +kernel
  exact ⟨removed,(removed_stays_removed (e := 1) rfl
    (endState_run _ clearedSchedule (by decide +kernel))).1 _ removed⟩

/-- Thread 1 removes the copy of `a`, helps the source that is still marked, and
removes `a` again. -/
def revivedSchedule : List (Nat × Action) :=
  copiedSchedule ++ [(1,.invoke (.remove keyA))] ++ runs 1 3 ++ [(1,.invoke (.find keyC))] ++
    runs 1 13 ++ [(1,.invoke (.remove keyA))] ++ runs 1 3

theorem entry_revived : ∃ s, Reachable sampleConfig s ∧
    ¬(s.memory.removed.map Transfer.entry).Nodup ∧
    (s.memory.returned.filterMap insertedKey).countP (sampleMd5 · = sampleMd5 keyA) <
      (s.memory.returned.filterMap removedKey).countP (sampleMd5 · = sampleMd5 keyA) := by
  refine ⟨endState sampleConfig revivedSchedule,endState_reachable _ _,?_,?_⟩
  · decide +kernel
  · decide +kernel

end CuckooFilter.LockFree
