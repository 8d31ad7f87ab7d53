import CuckooFilter.LockFreePlacement
import CuckooFilter.LockFreeCounter
import CuckooFilter.LockFreeHistory

/-! Searches. The search for a stored key looks at both candidate slots of the entry,
first the one in `hash1`. An entry that is in the table all along can only be missed
by a move from the second to the first slot between the two reads; the counters that
are read again afterwards tell two such moves, not one. -/
namespace CuckooFilter.LockFree

def Control.finding : Control → Option Bytes
  | .find key _ => some key
  | _ => none

def InTable (cfg : Config) (m : Memory) (entry : Address) : Prop :=
  ∃ b < cfg.tableSize, ∃ i < numItemsPerEntry, getRealPointer (m.hashTable b i) = entry

instance (cfg : Config) (m : Memory) (entry : Address) : Decidable (InTable cfg m entry) :=
  inferInstanceAs (Decidable (∃ b < cfg.tableSize, ∃ i < numItemsPerEntry,
    getRealPointer (m.hashTable b i) = entry))

def FindFrame.Between (f : FindFrame) : Prop :=
  (∃ ptr1, f.pc = .compareFirst ptr1) ∨ ∃ ts1, f.pc = .readSecond ts1

/-- `mover` is about to copy the entry of `x` into its slot of `hash1`, which the
search of thread `tid` has read already, before the search reads the other slot. -/
def MovesBehind (tid : Nat) (x : Transfer) (mover : Nat) (s : System) : Prop :=
  ∃ search f ptr1 ptr2, s.control tid = .find x.key search ∧ search.slot = x.slot ∧
    search.Between ∧ (s.control mover).help? = some f ∧ f.slotIdx = x.slot ∧
    f.pc = .copyCas ptr1 ptr2 search.hash1 ∧ getRealPointer ptr1 = x.entry ∧
    s.memory.hashTable search.hash1 x.slot = ptr2

/-- The search has not passed the entry: its slot index is still to come, or it is
the present one and the entry is not behind. -/
def FindFrame.Ahead (x : Transfer) (m : Memory) (f : FindFrame) : Prop :=
  f.slot < x.slot ∨ f.slot = x.slot ∧
    match f.pc with
    | .readFirst | .help _ => True
    | .compareFirst ptr1 => getRealPointer ptr1 = x.entry ∨
        getRealPointer (m.hashTable f.hash1 f.slot) ≠ x.entry
    | .readSecond _ => getRealPointer (m.hashTable f.hash1 f.slot) ≠ x.entry
    | .compareSecond _ ptr2 => getRealPointer ptr2 = x.entry
    | .recheckFirst _ _ | .recheckSecond _ _ _ => False

section

variable {cfg : Config} {m : Memory} {f : FindFrame} {x : Transfer}

theorem readFirst_ahead (pc : f.pc = .readFirst) (ahead : f.Ahead x m) (present : x.entry ≠ 0)
    (running : (find cfg tid m f).2 = .running after) : after.Ahead x (find cfg tid m f).1 := by
  simp only [FindFrame.Ahead,pc] at ahead
  simp only [find,pc] at running ⊢
  split at running
  · rename_i empty
    cases running
    rw [if_pos empty]
    rcases ahead with before | ⟨here,-⟩
    · exact .inl before
    · exact .inr ⟨here,fun holds => present (holds.symm.trans empty)⟩
  · rename_i full
    rw [if_neg full]
    split at running
    · rename_i marked
      cases running
      rw [if_pos marked]
      exact ahead
    · rename_i unmarked
      cases running
      rw [if_neg unmarked]
      rcases ahead with before | ⟨here,-⟩
      · exact .inl before
      · exact .inr ⟨here,Decidable.em _⟩

theorem compareFirst_ahead (pc : f.pc = .compareFirst ptr1) (ahead : f.Ahead x m)
    (string : f.fingerprint = m.str x.entry)
    (running : (find cfg tid m f).2 = .running after) : after.Ahead x (find cfg tid m f).1 := by
  simp only [FindFrame.Ahead,pc] at ahead
  simp only [find,pc] at running ⊢
  split at running
  · contradiction
  · rename_i different
    cases running
    rw [if_neg different]
    rcases ahead with before | ⟨here,seen | away⟩
    · exact .inl before
    · rw [seen] at different
      exact absurd string different
    · exact .inr ⟨here,away⟩

theorem readSecond_ahead (pc : f.pc = .readSecond ts1) (ahead : f.Ahead x m)
    (present : x.entry ≠ 0)
    (held : getRealPointer (m.hashTable f.hash1 x.slot) = x.entry ∨
      getRealPointer (m.hashTable f.hash2 x.slot) = x.entry)
    (running : (find cfg tid m f).2 = .running after) : after.Ahead x (find cfg tid m f).1 := by
  simp only [FindFrame.Ahead,pc] at ahead
  -- The entry is not in the first slot, so the second one holds it.
  have second (here : f.slot = x.slot) (away : getRealPointer (m.hashTable f.hash1 f.slot) ≠ x.entry) :
      getRealPointer (m.hashTable f.hash2 f.slot) = x.entry := by
    rw [here] at away ⊢
    exact held.resolve_left away
  simp only [find,pc] at running ⊢
  split at running
  · rename_i empty
    cases running
    rw [if_pos empty]
    rcases ahead with before | ⟨here,away⟩
    · exact .inl before
    · exact absurd ((second here away).symm.trans empty) present
  · rename_i full
    rw [if_neg full]
    split at running
    · rename_i marked
      cases running
      rw [if_pos marked]
      exact ahead.imp_right fun both => ⟨both.1,trivial⟩
    · rename_i unmarked
      cases running
      rw [if_neg unmarked]
      exact ahead.imp_right fun both => ⟨both.1,second both.1 both.2⟩

theorem compareSecond_ahead (pc : f.pc = .compareSecond ts1 ptr2) (ahead : f.Ahead x m)
    (string : f.fingerprint = m.str x.entry)
    (running : (find cfg tid m f).2 = .running after) : after.Ahead x (find cfg tid m f).1 := by
  simp only [FindFrame.Ahead,pc] at ahead
  simp only [find,pc] at running ⊢
  split at running
  · contradiction
  · rename_i different
    cases running
    rw [if_neg different]
    rcases ahead with before | ⟨here,seen⟩
    · exact .inl before
    · rw [seen] at different
      exact absurd string different

theorem recheckSecond_ahead (pc : f.pc = .recheckSecond ts1 ts2 ts1x) (ahead : f.Ahead x m)
    (running : (find cfg tid m f).2 = .running after) : after.Ahead x (find cfg tid m f).1 := by
  simp only [FindFrame.Ahead,pc,and_false,or_false] at ahead
  simp only [find,pc,FindFrame.nextSlot] at running ⊢
  split at running
  · rename_i again
    cases running
    rw [if_pos again]
    exact .inl ahead
  · rename_i settled
    rw [if_neg settled]
    split at running
    · cases running
      rcases Nat.lt_or_eq_of_le (Nat.succ_le_of_lt ahead) with before | here
      · exact .inl before
      · exact .inr ⟨here,trivial⟩
    · contradiction

/-- Reads leave the search ahead of an entry that is in one of its two slots. -/
theorem find_ahead (ahead : f.Ahead x m) (present : x.entry ≠ 0)
    (held : getRealPointer (m.hashTable f.hash1 x.slot) = x.entry ∨
      getRealPointer (m.hashTable f.hash2 x.slot) = x.entry)
    (string : f.fingerprint = m.str x.entry)
    (running : (find cfg tid m f).2 = .running after) : after.Ahead x (find cfg tid m f).1 := by
  cases pc : f.pc with
  | help frame =>
    simp only [FindFrame.Ahead,pc] at ahead
    simp only [find,pc] at running ⊢
    cases flow : helpRelocate cfg tid m frame with | mk next result =>
    rw [flow] at running
    cases result <;> (cases running; exact ahead)
  | readFirst => exact readFirst_ahead pc ahead present running
  | compareFirst ptr1 => exact compareFirst_ahead pc ahead string running
  | readSecond ts1 => exact readSecond_ahead pc ahead present held running
  | compareSecond ts1 ptr2 => exact compareSecond_ahead pc ahead string running
  | recheckFirst ts1 ts2 =>
    simp only [FindFrame.Ahead,pc,and_false,or_false] at ahead
    simp only [find,pc] at running ⊢
    cases running
    exact .inl ahead
  | recheckSecond ts1 ts2 ts1x => exact recheckSecond_ahead pc ahead running

theorem find_returns_hit (ahead : f.Ahead x m) (slot : f.slot < numItemsPerEntry)
    (inside : x.slot < numItemsPerEntry)
    (returned : (find cfg tid m f).2 = .returned (location,ptr)) :
    location < 2 * numItemsPerEntry := by
  simp only [numItemsPerEntry] at slot inside ⊢
  rcases find_result returned with ⟨rfl,-⟩ | ⟨rfl,-⟩ | ⟨-,ts1,ts2,ts1x,pc,last,-⟩
  · omega
  · simp only [numItemsPerEntry]; omega
  · simp only [FindFrame.Ahead,pc,and_false,or_false] at ahead
    simp only [numItemsPerEntry] at last
    omega

end

/-- The search of thread `tid` for the key of `x` is going on. -/
def SearchAhead (tid : Nat) (x : Transfer) (s : System) : Prop :=
  ∃ f, s.control tid = .find x.key f ∧ f.Ahead x s.memory

/-- Steps of other threads leave the search ahead unless one moves the entry behind it. -/
theorem ahead_other (sound : Sound cfg s) (known : Known s x.entry) (present : x.entry ≠ 0)
    (moved : StepBy cfg mover s t) (site : s.control tid = .find x.key f)
    (stays : ¬MovesBehind tid x mover s) (ahead : f.Ahead x s.memory) : f.Ahead x t.memory := by
  have arrives (here : f.slot = x.slot) (between : f.Between)
      (away : getRealPointer (s.memory.hashTable f.hash1 f.slot) ≠ x.entry) :
      getRealPointer (t.memory.hashTable f.hash1 f.slot) ≠ x.entry := by
    intro holds
    cases threadStep_slot (stepBy_thread moved) f.hash1 f.slot with
    | kept same => exact away (same ▸ holds)
    | @store frame second ptr1 pcSite pc bucket found created =>
      have own : (s.control mover).unstored? = some frame.newEntry := by
        simp [pcSite,Control.unstored?,pc]
      rw [createPointer_real created (sound_known sound own)] at holds
      exact known.2 mover (holds ▸ own)
    | take _ _ _ _ _ created =>
      rw [createPointer_real created null_fits] at holds
      exact present holds.symm
    | mark _ _ _ _ found same =>
      rw [same,getNewMark_real,← found] at holds
      exact away holds
    | copy inside pc slot found created =>
      rw [createPointer_real created (getRealPointer_fits _)] at holds
      exact stays ⟨f,_,_,_,site,here,between,inside,slot.symm.trans here,pc,holds,here ▸ found⟩
    | clear _ _ _ _ _ created =>
      rw [createPointer_real created null_fits] at holds
      exact present holds.symm
    | complete _ _ _ _ created =>
      rw [createPointer_real created null_fits] at holds
      exact present holds.symm
    | rollBack _ _ _ found created =>
      rw [createPointer_real created (getRealPointer_fits _),← found] at holds
      exact away holds
  rcases ahead with before | ⟨here,ahead⟩
  · exact .inl before
  · refine .inr ⟨here,?_⟩
    cases pc : f.pc with
    | compareFirst ptr1 =>
      simp only [pc] at ahead
      exact ahead.imp_right (arrives here (.inl ⟨ptr1,pc⟩))
    | readSecond ts1 =>
      simp only [pc] at ahead
      exact arrives here (.inr ⟨ts1,pc⟩) ahead
    | compareSecond ts1 ptr2 => simpa only [pc] using ahead
    | readFirst | help frame => trivial
    | recheckFirst ts1 ts2 | recheckSecond ts1 ts2 ts1x => simp only [pc] at ahead

theorem find_moves (moved : StepBy cfg tid s t) (site : s.control tid = .find key f) :
    (∃ after, find cfg tid s.memory f = (t.memory,.running after) ∧
      t.control tid = .find key after) ∨
    ∃ next location ptr, find cfg tid s.memory f = (next,.returned (location,ptr)) ∧
      t.memory = next.respond tid (.find key) (.location location) ∧ t.control tid = .idle := by
  obtain ⟨-,⟨action,raw⟩,-⟩ := stepBy_cases moved
  generalize t.control tid = control at raw
  generalize t.memory = memory at raw
  rw [site] at raw
  cases threadStep_move raw with
  | find =>
    simp only [advance]
    cases flow : find cfg tid s.memory f with | mk next result =>
    cases result with
    | running after => exact .inl ⟨after,rfl,rfl⟩
    | returned result => exact .inr ⟨next,result.1,result.2,rfl,rfl,rfl⟩

/-- The state of a search along its run: ahead of the entry, or over with a hit. -/
def HitOrAhead (tid : Nat) (x : Transfer) (s : System) : Prop :=
  SearchAhead tid x s ∨ s.control tid = .idle ∧ ∃ location < 2 * numItemsPerEntry,
    s.memory.returned.head? = some (tid,.find x.key,.location location)

theorem hitOrAhead_step (placed : Placed cfg s) (stored : x ∈ s.memory.stored)
    (searching : (s.control tid).finding = some x.key) (held : InTable cfg s.memory x.entry)
    (stays : ¬MovesBehind tid x mover s) (state : HitOrAhead tid x s)
    (moved : StepBy cfg mover s t) : HitOrAhead tid x t := by
  have sound := placed.accounted.formed.sound
  obtain ⟨present,string⟩ := sound.stored x stored
  rcases state with ⟨f,site,ahead⟩ | ⟨ended,-⟩
  · obtain ⟨fingerprint,first,second,slot⟩ : f.For cfg x.key := by
      have keyed := sound.keyed tid
      rwa [site] at keyed
    obtain ⟨b,-,i,inside,holds⟩ := held
    obtain ⟨same,bucket⟩ := placed.slots x stored b i holds
    have here : getRealPointer (s.memory.hashTable f.hash1 x.slot) = x.entry ∨
        getRealPointer (s.memory.hashTable f.hash2 x.slot) = x.entry := by
      rw [first,second,← same]
      rcases bucket with home | away
      · rw [home] at holds
        exact .inl holds
      · rw [away] at holds
        exact .inr holds
    by_cases own : mover = tid
    · subst mover
      rcases find_moves moved site with ⟨after,flow,now⟩ | ⟨next,location,ptr,flow,memory,now⟩
      · have going := find_ahead ahead present here
          (by rw [fingerprint,Memory.str,string]; rfl) (show (find cfg tid s.memory f).2 = _ by rw [flow])
        rw [flow] at going
        exact .inl ⟨after,now,going⟩
      · have hit := find_returns_hit ahead slot (same ▸ inside)
          (show (find cfg tid s.memory f).2 = _ by rw [flow])
        exact .inr ⟨now,location,hit,by rw [memory]; rfl⟩
    · refine .inl ⟨f,?_,ahead_other sound (known_entry sound stored) present moved site stays ahead⟩
      rw [stepBy_other moved (Ne.symm own),site]
  · rw [ended] at searching
    contradiction

/-- A search for a stored key whose entry is in the table all along, and is not moved
from its second to its first slot between the reads of the two, returns a location. -/
theorem search_hits (power : cfg.tableSize = 2 ^ e) (reachable : Reachable cfg s)
    (stored : x ∈ s.memory.stored) (begins : step cfg s tid (.invoke (.find x.key)) = some t)
    (run : Run cfg (fun mover u => (u.control tid).finding = some x.key ∧
      InTable cfg u.memory x.entry ∧ ¬MovesBehind tid x mover u) t v)
    (returned : v.control tid = .idle) :
    ∃ location < 2 * numItemsPerEntry,
      v.memory.returned.head? = some (tid,.find x.key,.location location) := by
  have moved : StepBy cfg tid s t := ⟨_,begins⟩
  have entered : t.control tid = .find x.key (.enter cfg x.key) := by
    unfold step at begins
    split at begins
    · contradiction
    · simp only [threadStep] at begins
      split at begins
      · contradiction
      · rename_i memory control stepped
        split at stepped
        · cases stepped
          cases begins
          simp
        · contradiction
  have first : HitOrAhead tid x t := by
    refine .inl ⟨_,entered,?_⟩
    rcases Nat.eq_zero_or_pos x.slot with zero | positive
    · exact .inr ⟨zero.symm,trivial⟩
    · exact .inl positive
  have last : Reachable cfg v ∧ x ∈ v.memory.stored ∧ HitOrAhead tid x v := by
    refine Transition.run_invariant
      (fun u => Reachable cfg u ∧ x ∈ u.memory.stored ∧ HitOrAhead tid x u) ?_
      ⟨reachable.step moved,stored_grows moved stored,first⟩ run
    rintro u w ⟨reached,stored,state⟩ ⟨mover,⟨searching,held,stays⟩,moved⟩
    exact ⟨reached.step moved,stored_grows moved stored,hitOrAhead_step
      (reachable_placed power reached) stored searching held stays state moved⟩
  rcases last.2.2 with ⟨f,site,-⟩ | ⟨-,hit⟩
  · rw [returned] at site; contradiction
  · exact hit

/-- The search of thread `tid` is between two reads and `mover` is before a copy. -/
def copiesBetween (tid mover : Nat) (s : System) : Bool :=
  (match s.control tid with
    | .find _ ⟨_,_,_,_,.compareFirst _⟩ | .find _ ⟨_,_,_,_,.readSecond _⟩ => true
    | _ => false) &&
  (s.control mover).help?.any fun
    | ⟨_,_,_,.copyCas _ _ _⟩ => true
    | _ => false

theorem movesBehind_copies {x : Transfer} (moves : MovesBehind tid x mover s) :
    copiesBetween tid mover s = true := by
  obtain ⟨⟨_,_,_,_,pc⟩,⟨_,_,_,pc'⟩,ptr1,ptr2,site,-,between,inside,-,copies,-⟩ := moves
  rcases between with ⟨_,rfl⟩ | ⟨_,rfl⟩
  · simp only at copies
    subst copies
    simp [copiesBetween,site,inside]
  · simp only at copies
    subst copies
    simp [copiesBetween,site,inside]

/-- `a` is in bucket 1 over an empty slot of bucket 0 when thread 1 starts to search
for it. -/
def searchedSchedule : List (Nat × Action) :=
  inserts 0 keyF 2 2 ++ inserts 0 keyA 4 3 ++ inserts 0 keyC 6 4 ++ inserts 0 keyC 8 6 ++
    inserts 0 keyC 10 8 ++ [(0,.invoke (.remove keyF))] ++ runs 0 3

/-- Thread 1 has read the empty slot of bucket 0; an insertion of `c` moves `a` there while
thread 1 helps with the mark it has met in bucket 1. -/
def helpingSchedule : List (Nat × Action) :=
  runs 1 1 ++ inserts 0 keyC 12 8 ++ [(0,.shuffle [0,1,2,3])] ++ runs 0 8 ++ runs 1 4 ++
    runs 0 6 ++ runs 1 4

theorem search_hits_helping : ∃ location < 8,
    (endState sampleConfig (searchedSchedule ++ [(1,.invoke (.find keyA))] ++ helpingSchedule)
      ).memory.returned.head? = some (1,.find keyA,.location location) := by
  have overlapped : Run sampleConfig
      (fun mover u => (u.control 1).finding = some keyA ∧ InTable sampleConfig u.memory 4 ∧
        copiesBetween 1 mover u = false)
      (endState sampleConfig (searchedSchedule ++ [(1,.invoke (.find keyA))]))
      (endState sampleConfig (searchedSchedule ++ [(1,.invoke (.find keyA))] ++ helpingSchedule)) :=
    endState_between _ _ _ (by decide +kernel) (by decide +kernel)
  exact search_hits (e := 1) (x := ⟨0,keyA,4,1,0⟩) rfl (endState_reachable _ searchedSchedule)
    (by decide +kernel) (endState_step searchedSchedule 1 _ (by decide +kernel))
    (overlapped.weaken fun mover u ⟨searching,held,apart⟩ => ⟨searching,held,fun moves =>
      Bool.false_ne_true (apart.symm.trans (movesBehind_copies moves))⟩) (by decide +kernel)

/-- Thread 1 has read the empty slot of bucket 0; an insertion of `c` moves `a` there,
and thread 1 goes on with bucket 1. -/
def overtakenSchedule : List (Nat × Action) :=
  runs 1 1 ++ inserts 0 keyC 12 8 ++ [(0,.shuffle [0,1,2,3])] ++ runs 0 14 ++ runs 1 18

theorem search_misses : ∃ s t v, Reachable sampleConfig s ∧
    (0,.insert keyA,.truth true) ∈ s.memory.returned ∧ ⟨0,keyA,4,1,0⟩ ∈ s.memory.stored ∧
    step sampleConfig s 1 (.invoke (.find keyA)) = some t ∧
    Run sampleConfig (fun _ u => (u.control 1).finding = some keyA ∧
      InTable sampleConfig u.memory 4) t v ∧ InTable sampleConfig v.memory 4 ∧
    (∀ tid key response, (tid,.remove key,response) ∈ v.memory.returned →
      sampleMd5 key ≠ sampleMd5 keyA) ∧
    (∀ tid frame, v.control tid ≠ .remove frame) ∧
    v.memory.returned.head? = some (1,.find keyA,.location (2 * numItemsPerEntry)) := by
  have idle (tid : Nat) (other : tid ≠ 0) : (endState sampleConfig (searchedSchedule ++
      [(1,.invoke (.find keyA))] ++ overtakenSchedule)).control tid = .idle := by
    by_cases one : tid = 1
    · rw [one]; decide +kernel
    · have threads : ∀ x ∈ searchedSchedule ++ [(1,.invoke (.find keyA))] ++ overtakenSchedule,
          x.1 = 0 ∨ x.1 = 1 := by decide +kernel
      refine endState_other _ _ fun x member same => ?_
      have := threads x member
      omega
  have returned : (endState sampleConfig (searchedSchedule ++
      [(1,.invoke (.find keyA))] ++ overtakenSchedule)).memory.returned =
      [(1,.find keyA,.location 8),(0,.remove keyF,.truth true),(0,.insert keyC,.truth true),
        (0,.insert keyC,.truth true),(0,.insert keyC,.truth true),(0,.insert keyA,.truth true),
        (0,.insert keyF,.truth true)] := by decide +kernel
  refine ⟨_,_,_,endState_reachable _ searchedSchedule,by decide +kernel,by decide +kernel,
    endState_step searchedSchedule 1 _ (by decide +kernel),
    endState_between _ _ overtakenSchedule (by decide +kernel) (by decide +kernel),
    by decide +kernel,?_,?_,by decide +kernel⟩
  · intro tid key response member
    rw [returned] at member
    simp only [List.mem_cons,Prod.mk.injEq,reduceCtorEq,false_and,and_false,false_or,
      Call.remove.injEq,List.not_mem_nil,or_false] at member
    rw [member.2.1]
    decide
  · intro tid frame site
    by_cases zero : tid = 0
    · subst tid
      have inserting : ((endState sampleConfig (searchedSchedule ++
          [(1,.invoke (.find keyA))] ++ overtakenSchedule)).control 0).pending.isSome = true := by
        decide +kernel
      rw [site] at inserting
      cases inserting
    · rw [idle tid zero] at site
      cases site

end CuckooFilter.LockFree
