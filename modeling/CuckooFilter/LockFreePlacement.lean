import CuckooFilter.LockFreeFormed
import Mathlib.Data.List.Nodup

/-! The replacement rule. Slots and threads hold stored entries only, an entry is
stored once, and every relocation moves it inside its slot index between its two
candidate buckets. -/
namespace CuckooFilter.LockFree

def Memory.entries (m : Memory) : List Address := m.stored.map Transfer.entry

theorem stored_grows (moved : StepBy cfg tid s t) (member : x ∈ s.memory.stored) :
    x ∈ t.memory.stored := by
  rcases stored_step (stepBy_thread moved) with same | ⟨_,_,_,_,_,_,_,same⟩
  · exact same ▸ member
  · rw [same]; exact List.mem_cons_of_mem _ member

theorem store_recorded (sound : Sound cfg s) (moved : StepBy cfg tid s t)
    (site : s.control tid = .insert frame) (pc : frame.pc = .store i second ptr1)
    (holds : getRealPointer (t.memory.hashTable (frame.bucket second) i) = frame.newEntry) :
    ⟨tid,frame.key,frame.newEntry,frame.bucket second,i⟩ ∈ t.memory.stored := by
  have own : (s.control tid).unstored? = some frame.newEntry := by simp [site,Control.unstored?,pc]
  have outside : (s.control tid).help? = none := by
    simp [site,Control.help?,InsertFrame.relocate?,pc]
  have unstored := (sound.unshared tid _ own).slots (frame.bucket second) i
  cases stepBy_thread moved with
  | other nested =>
    rw [(nested_quiet nested outside).table] at holds
    exact absurd holds unstored
  | allocate site' pc' =>
    cases site.symm.trans site'
    rw [pc] at pc'; contradiction
  | store site' pc' _ _ same =>
    cases site.symm.trans site'
    cases pc.symm.trans pc'
    rw [same.stored]
    exact List.mem_cons_self
  | take site' => rw [site] at site'; contradiction

/-- Only stored entries are in the table or remembered, and none is stored twice. -/
structure Accounted (cfg : Config) (s : System) : Prop where
  formed : Formed cfg s
  distinct : s.memory.entries.Nodup
  slots : ∀ b i, getRealPointer (s.memory.hashTable b i) ≠ 0 →
    getRealPointer (s.memory.hashTable b i) ∈ s.memory.entries
  cells : ∀ tid, ∀ cell ∈ (s.control tid).held, getRealPointer cell.word ≠ 0 →
    getRealPointer cell.word ∈ s.memory.entries

theorem accounted_initial (cfg : Config) : Accounted cfg System.initial := by
  refine ⟨formed_initial cfg,?_,?_,?_⟩
  · simp [Memory.entries,System.initial,Memory.initial]
  · simp [System.initial,Memory.initial]
  · simp [System.initial,Control.held]

theorem accounted_step (accounted : Accounted cfg s) (moved : StepBy cfg tid s t) :
    Accounted cfg t := by
  have sound := accounted.formed.sound
  have grows {entry : Address} (known : entry ∈ s.memory.entries) : entry ∈ t.memory.entries := by
    obtain ⟨x,member,rfl⟩ := List.mem_map.mp known
    exact List.mem_map_of_mem (stored_grows moved member)
  refine ⟨formed_step accounted.formed moved,?_,?_,?_⟩
  · rcases stored_step (stepBy_thread moved) with same | ⟨frame,i,second,ptr1,site,pc,-,same⟩
    · rw [Memory.entries,same]; exact accounted.distinct
    · have own : (s.control tid).unstored? = some frame.newEntry := by
        simp [site,Control.unstored?,pc]
      rw [Memory.entries,same]
      refine List.nodup_cons.mpr ⟨?_,accounted.distinct⟩
      intro stored
      obtain ⟨x,member,equal⟩ := List.mem_map.mp stored
      exact (sound.unshared tid _ own).stored x member equal
  · intro b i present
    rcases slotStep_origin (fun _ own => sound_known sound own)
      (threadStep_slot (stepBy_thread moved) b i) present with
      old | ⟨cell,member,real⟩ | ⟨frame,second,ptr1,site,pc,rfl,-,real⟩
    · rw [old] at present ⊢
      exact grows (accounted.slots b i present)
    · rw [← real] at present ⊢
      exact grows (accounted.cells tid cell member present)
    · have recorded := store_recorded sound moved site pc real.symm
      exact List.mem_map.mpr ⟨_,recorded,real⟩
  · intro other cell member present
    rcases cell_step sound moved member with known | read
    · exact grows (accounted.cells other cell known present)
    · rw [← read] at present ⊢
      exact grows (accounted.slots _ _ present)

theorem reachable_accounted (reachable : Reachable cfg s) : Accounted cfg s :=
  Transition.run_invariant (Accounted cfg)
    (fun _ _ accounted ⟨_,_,moved⟩ => accounted_step accounted moved) (accounted_initial cfg) reachable

theorem transfer_unique {m : Memory} {x y : Transfer} (distinct : m.entries.Nodup)
    (first : x ∈ m.stored) (second : y ∈ m.stored) (same : x.entry = y.entry) : x = y :=
  List.inj_on_of_nodup_map distinct first second same

/-- `hash1` of the key an entry was inserted for. -/
def Transfer.home (cfg : Config) (x : Transfer) : Nat :=
  (jenkinsHash x.key).toNat % cfg.tableSize

/-- The two slots an entry may be in. -/
def Transfer.At (cfg : Config) (x : Transfer) (b i : Nat) : Prop :=
  i = x.slot ∧ (b = x.home cfg ∨
    b = getNextHashIndex cfg.tableSize (x.home cfg) (cfg.md5Fingerprint x.key))

theorem home_lt (cfg : Config) (x : Transfer) : x.home cfg < cfg.tableSize :=
  Nat.mod_lt _ cfg.positive

theorem at_lt {x : Transfer} (place : x.At cfg b i) : b < cfg.tableSize := by
  rcases place.2 with home | away
  · rw [home]
    exact home_lt cfg x
  · rw [away]
    exact getNextHashIndex_lt cfg.positive _ _

theorem at_alternate {cfg : Config} {x : Transfer} (power : cfg.tableSize = 2 ^ e)
    (place : x.At cfg b i) :
    x.At cfg (getNextHashIndex cfg.tableSize b (cfg.md5Fingerprint x.key)) i := by
  obtain ⟨slot,home | away⟩ := place
  · rw [home]
    exact ⟨slot,.inr rfl⟩
  · rw [away]
    refine ⟨slot,.inl ?_⟩
    exact getNextHashIndex_involutive power (home_lt cfg x) _

structure Placed (cfg : Config) (s : System) : Prop where
  accounted : Accounted cfg s
  origin : ∀ x ∈ s.memory.stored, x.At cfg x.bucket x.slot
  slots : ∀ x ∈ s.memory.stored, ∀ b i, getRealPointer (s.memory.hashTable b i) = x.entry →
    x.At cfg b i
  cells : ∀ x ∈ s.memory.stored, ∀ tid, ∀ cell ∈ (s.control tid).held,
    getRealPointer cell.word = x.entry → x.At cfg cell.bucket cell.slot

theorem placed_initial (cfg : Config) : Placed cfg System.initial := by
  refine ⟨accounted_initial cfg,?_,?_,?_⟩ <;> simp [System.initial,Memory.initial]

theorem stores_at (tid : Nat) (entry : Address) (i : Nat)
    (keyed : (Control.insert frame).Keyed cfg) (second : Bool) :
    (⟨tid,frame.key,entry,frame.bucket second,i⟩ : Transfer).At cfg (frame.bucket second) i := by
  obtain ⟨fingerprint,first,alternative⟩ := keyed
  cases second with
  | false => exact ⟨rfl,.inl first⟩
  | true => exact ⟨rfl,.inr alternative⟩

theorem stored_origin (moved : StepBy cfg tid s t) (member : x ∈ t.memory.stored) :
    x ∈ s.memory.stored ∨ ∃ frame second ptr1, s.control tid = .insert frame ∧
      frame.pc = .store x.slot second ptr1 ∧ x.bucket = frame.bucket second ∧
      x.key = frame.key ∧ x.entry = frame.newEntry := by
  rcases stored_step (stepBy_thread moved) with same | ⟨frame,i,second,ptr1,site,pc,-,same⟩
  · exact .inl (same ▸ member)
  · rw [same] at member
    rcases List.mem_cons.mp member with rfl | known
    · exact .inr ⟨frame,second,ptr1,site,pc,rfl,rfl,rfl⟩
    · exact .inl known

/-- An entry being stored in this step is in no other slot and in no cell. -/
theorem store_alone (sound : Sound cfg s) (moved : StepBy cfg tid s t)
    (site : s.control tid = .insert frame) (pc : frame.pc = .store i second ptr1)
    (holds : getRealPointer (t.memory.hashTable b j) = frame.newEntry) :
    b = frame.bucket second ∧ j = i := by
  have own : (s.control tid).unstored? = some frame.newEntry := by simp [site,Control.unstored?,pc]
  have unshared := sound.unshared tid _ own
  have present : frame.newEntry ≠ 0 := (sound.owned tid _ own).1
  rcases slotStep_origin (fun _ own => sound_known sound own)
    (threadStep_slot (stepBy_thread moved) b j) (holds ▸ present) with
    old | ⟨cell,member,real⟩ | ⟨frame',second',ptr1',site',pc',bucket,-⟩
  · exact absurd (old.symm.trans holds) (unshared.slots b j)
  · exact absurd (real.trans holds) (unshared.cells tid cell member)
  · cases site.symm.trans site'
    cases pc.symm.trans pc'
    exact ⟨bucket,rfl⟩

theorem placed_slot (power : cfg.tableSize = 2 ^ e) (placed : Placed cfg s)
    (moved : StepBy cfg tid s t) (known : x ∈ s.memory.stored)
    (holds : getRealPointer (t.memory.hashTable b i) = x.entry) : x.At cfg b i := by
  have sound := placed.accounted.formed.sound
  obtain ⟨present,string⟩ := sound.stored x known
  cases threadStep_slot (stepBy_thread moved) b i with
  | kept same => exact placed.slots x known b i (same ▸ holds)
  | @store frame second ptr1 site pc bucket found created =>
    have own : (s.control tid).unstored? = some frame.newEntry := by
      simp [site,Control.unstored?,pc]
    rw [createPointer_real created (sound_known sound own)] at holds
    exact absurd holds.symm ((sound.unshared tid _ own).stored x known)
  | take _ _ _ _ _ created =>
    rw [createPointer_real created null_fits] at holds
    exact absurd holds.symm present
  | mark _ _ _ _ found same =>
    rw [same,getNewMark_real,← found] at holds
    exact placed.slots x known b i holds
  | @copy f ptr1 ptr2 inside pc slot found created =>
    rw [createPointer_real created (getRealPointer_fits _)] at holds
    have shape := placed.accounted.formed.help tid f inside
    simp only [HelpFrame.Formed,pc] at shape
    have member : ⟨f.tableIdx,f.slotIdx,ptr1⟩ ∈ (s.control tid).held := by
      rw [← help_held inside]; simp [HelpFrame.held,pc]
    have source := placed.cells x known tid _ member holds
    rw [shape.2.1,HelpFrame.target,slot,holds,Memory.str,string]
    exact at_alternate power source
  | clear _ _ _ _ _ created =>
    rw [createPointer_real created null_fits] at holds
    exact absurd holds.symm present
  | complete _ _ _ _ created =>
    rw [createPointer_real created null_fits] at holds
    exact absurd holds.symm present
  | rollBack _ _ _ found created =>
    rw [createPointer_real created (getRealPointer_fits _),← found] at holds
    exact placed.slots x known b i holds

theorem placed_step (power : cfg.tableSize = 2 ^ e) (placed : Placed cfg s)
    (moved : StepBy cfg tid s t) : Placed cfg t := by
  have sound := placed.accounted.formed.sound
  refine ⟨accounted_step placed.accounted moved,?_,?_,?_⟩
  · intro x member
    rcases stored_origin moved member with known | ⟨frame,second,ptr1,site,pc,bucket,key,-⟩
    · exact placed.origin x known
    · have own := stores_at x.tid x.entry x.slot (site ▸ sound.keyed tid) second
      rw [← key,← bucket] at own
      exact own
  · intro x member b i holds
    rcases stored_origin moved member with known | ⟨frame,second,ptr1,site,pc,bucket,key,entry⟩
    · exact placed_slot power placed moved known holds
    · have own := stores_at x.tid x.entry x.slot (site ▸ sound.keyed tid) second
      obtain ⟨rfl,rfl⟩ := store_alone sound moved site pc (holds.trans entry)
      rw [← key,← bucket] at own
      exact bucket ▸ own
  · intro x member other cell held holds
    rcases stored_origin moved member with known | ⟨frame,second,ptr1,site,pc,bucket,key,entry⟩
    · rcases cell_step sound moved held with old | read
      · exact placed.cells x known other cell old holds
      · exact placed.slots x known _ _ (read ▸ holds)
    · have own : (s.control tid).unstored? = some frame.newEntry := by
        simp [site,Control.unstored?,pc]
      have unshared := sound.unshared tid _ own
      rcases cell_step sound moved held with old | read
      · exact absurd (holds.trans entry) (unshared.cells other cell old)
      · exact absurd (read ▸ holds.trans entry) (unshared.slots _ _)

theorem reachable_placed (power : cfg.tableSize = 2 ^ e) (reachable : Reachable cfg s) :
    Placed cfg s :=
  Transition.run_invariant (Placed cfg) (fun _ _ placed ⟨_,_,moved⟩ => placed_step power placed moved)
    (placed_initial cfg) reachable

/-- An entry stays in the slot index it was first stored in, in the two buckets of
its key, and was stored once. -/
theorem replacement_rule (power : cfg.tableSize = 2 ^ e) (reachable : Reachable cfg s)
    (stored : x ∈ s.memory.stored) :
    (∀ y ∈ s.memory.stored, y.entry = x.entry → y = x) ∧
    s.memory.heap x.entry = some (cfg.md5Fingerprint x.key) ∧
    ∀ b i, getRealPointer (s.memory.hashTable b i) = x.entry → i = x.slot ∧
      (b = (jenkinsHash x.key).toNat % cfg.tableSize ∨
        b = getNextHashIndex cfg.tableSize ((jenkinsHash x.key).toNat % cfg.tableSize)
          (cfg.md5Fingerprint x.key)) := by
  have placed := reachable_placed power reachable
  refine ⟨?_,?_,?_⟩
  · intro y member same
    exact transfer_unique placed.accounted.distinct member stored same
  · exact (placed.accounted.formed.sound.stored x stored).2
  · intro b i holds
    exact placed.slots x stored b i holds

/-- Two buckets. The candidates of key `a` are 0 then 1; `f` has bucket 0 twice and `c` has
bucket 1 twice. -/
def sampleConfig : Config := ⟨2,by decide,sampleMd5⟩

def runs (tid n : Nat) : List (Nat × Action) := List.replicate n (tid,.run)

/-- An insertion that stores without a kick after `n` steps. -/
def inserts (tid : Nat) (key : Bytes) (address : Address) (n : Nat) : List (Nat × Action) :=
  [(tid,.invoke (.insert key)),(tid,.allocate address)] ++ runs tid n

/-- Bucket 0 fills up with `a` and three `f`, and a fourth `f` moves `a` to bucket 1. -/
def movingSchedule : List (Nat × Action) :=
  inserts 0 keyA 2 2 ++ inserts 0 keyF 4 4 ++ inserts 0 keyF 6 6 ++ inserts 0 keyF 8 8 ++
    inserts 0 keyF 10 8 ++ [(0,.shuffle [0,1,2,3])] ++ runs 0 16

/-- Bucket 0 fills up with an entry of the key and three `f`. -/
def fillingSchedule (key : Bytes) : List (Nat × Action) :=
  inserts 0 key 2 2 ++ inserts 0 keyF 4 4 ++ inserts 0 keyF 6 6 ++ inserts 0 keyF 8 8

theorem moved_entry_placed :
    getRealPointer ((endState sampleConfig movingSchedule).memory.hashTable 1 0) = 2 ∧
      (0 = 0 ∧ (1 = (jenkinsHash keyA).toNat % 2 ∨
        1 = getNextHashIndex 2 ((jenkinsHash keyA).toNat % 2) (sampleMd5 keyA))) := by
  have holds : getRealPointer ((endState sampleConfig movingSchedule).memory.hashTable 1 0) = 2 := by
    decide +kernel
  have stored : (⟨0,keyA,2,0,0⟩ : Transfer) ∈
      (endState sampleConfig movingSchedule).memory.stored := by decide +kernel
  exact ⟨holds,(replacement_rule (e := 1) rfl (endState_reachable _ _) stored).2.2 1 0 holds⟩

end CuckooFilter.LockFree
