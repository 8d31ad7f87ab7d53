import CuckooFilter.LockFreeAbort
import CuckooFilter.LockFreeLookup
import CuckooFilter.Transition
import Mathlib.Algebra.Order.BigOperators.Group.Finset

/-! The phases the filter is used in: insertions until all have answered, then searches and
removals. The second phase comes to an end under any order of steps, and what the first
has put in is found in it. -/
namespace CuckooFilter.LockFree

variable {cfg : Config} {origin s t : System} {m n : Memory} {tid threads : Nat}

def FindPc.rank : FindPc → Nat
  | .readFirst | .help _ => 0
  | .compareFirst _ => 1
  | .readSecond _ => 2
  | .compareSecond _ _ => 3
  | .recheckFirst _ _ => 4
  | .recheckSecond _ _ _ => 5

/-- The steps a search has left when it reads no slot again. -/
def FindFrame.left (f : FindFrame) : Nat := 6 * (numItemsPerEntry - f.slot) - f.pc.rank

/-- The word that the search compares has left its slot. -/
def FindFrame.stale (m : Memory) (f : FindFrame) : Bool :=
  match f.pc with
  | .compareFirst ptr1 => m.hashTable f.hash1 f.slot != ptr1
  | .compareSecond _ ptr2 => m.hashTable f.hash2 f.slot != ptr2
  | _ => false

/-- The steps a call has left while no slot changes. A removal whose word has left its slot
searches once more. -/
def Control.left (m : Memory) : Control → Nat
  | .idle | .insert _ => 0
  | .find _ f => f.left
  | .remove f =>
    match f.pc with
    | .find g => g.left + if g.stale m then 28 else 2
    | .cas location ptr1 =>
      if m.hashTable (f.hashVal location) (location % numItemsPerEntry) = ptr1 then 1 else 27

theorem left_le (m : Memory) (control : Control) : control.left m ≤ 52 := by
  have search (f : FindFrame) : f.left ≤ 24 := by
    simp only [FindFrame.left,numItemsPerEntry]
    omega
  cases control with
  | idle | insert f => exact Nat.zero_le _
  | find key f => exact (search f).trans (by decide)
  | remove f =>
    simp only [Control.left]
    split
    · rename_i g _
      have := search g
      split <;> omega
    · split <;> omega

theorem left_alike (same : Alike m n) (control : Control) : control.left n = control.left m := by
  cases control with
  | idle | insert f | find key f => rfl
  | remove f =>
    unfold Control.left FindFrame.stale
    rw [same.table]

theorem find_left {f : FindFrame} (unmarked : ∀ b i, getMarked (m.hashTable b i) = false) (passed : f.Passed m)
    (running : (find cfg tid m f).2 = .running after) :
    after.left < f.left ∧ after.stale m = false := by
  obtain ⟨inside,-,here⟩ := passed
  simp only [numItemsPerEntry] at inside
  simp only [FindFrame.left,FindFrame.stale,numItemsPerEntry]
  cases pc : f.pc with
  | readFirst =>
    simp only [find,pc,unmarked f.hash1 f.slot,Bool.false_eq_true,if_false] at running
    split at running
    · cases running
      exact ⟨by simp only [FindFrame.goto,FindPc.rank]; omega,rfl⟩
    · cases running
      exact ⟨by simp only [FindFrame.goto,FindPc.rank]; omega,by simp [FindFrame.goto]⟩
  | compareFirst ptr1 =>
    simp only [find,pc] at running
    split at running
    · contradiction
    · cases running
      exact ⟨by simp only [FindFrame.goto,FindPc.rank]; omega,rfl⟩
  | readSecond ts1 =>
    simp only [find,pc,unmarked f.hash2 f.slot,Bool.false_eq_true,if_false] at running
    split at running
    · cases running
      exact ⟨by simp only [FindFrame.goto,FindPc.rank]; omega,rfl⟩
    · cases running
      exact ⟨by simp only [FindFrame.goto,FindPc.rank]; omega,by simp [FindFrame.goto]⟩
  | compareSecond ts1 ptr2 =>
    simp only [find,pc] at running
    split at running
    · contradiction
    · cases running
      exact ⟨by simp only [FindFrame.goto,FindPc.rank]; omega,rfl⟩
  | recheckFirst ts1 ts2 =>
    simp only [find,pc] at running
    cases running
    exact ⟨by simp only [FindFrame.goto,FindPc.rank]; omega,rfl⟩
  | recheckSecond ts1 ts2 ts1x =>
    simp only [pc] at here
    obtain ⟨rfl,-,-⟩ := here
    simp only [find,pc,checkCounter,sub_self,FindFrame.nextSlot] at running
    simp only [ge_iff_le,Int.reduceLE,decide_false,Bool.false_and,Bool.false_eq_true,
      if_false] at running
    split at running
    · cases running
      exact ⟨by simp only [FindPc.rank]; omega,rfl⟩
    · contradiction
  | help frame => simp only [pc] at here

theorem find_last {f : FindFrame} (passed : f.Passed m) : 0 < f.left := by
  obtain ⟨inside,-,-⟩ := passed
  simp only [FindFrame.left,numItemsPerEntry] at inside ⊢
  cases f.pc <;> simp only [FindPc.rank] <;> omega

/-- The word a search has found is in the slot of its location unless it has gone stale. -/
theorem found_fresh {f : RemoveFrame} {g : FindFrame} (passed : g.Passed m)
    (first : g.hash1 = f.hash1) (second : g.hash2 = f.hash2)
    (returned : (find cfg tid m g).2 = .returned (location,word))
    (found : location ≠ numItemsPerEntry * 2) :
    m.hashTable (f.hashVal location) (location % numItemsPerEntry) = word ↔ g.stale m = false := by
  have inside := passed.1
  rcases find_result returned with ⟨rfl,ptr1,pc,rfl,-⟩ | ⟨rfl,ts1,ptr2,pc,rfl,-⟩ | ⟨missed,-⟩
  · simp [RemoveFrame.hashVal,FindFrame.stale,pc,inside,Nat.mod_eq_of_lt inside,first]
  · simp [RemoveFrame.hashVal,FindFrame.stale,pc,Nat.mod_eq_of_lt inside,second]
  · exact absurd missed found

theorem cas_left (m : Memory) (f : RemoveFrame) (location : Nat) (word : TablePointer) :
    (Control.remove (f.goto (.cas location word))).left m =
      if m.hashTable (f.hashVal location) (location % numItemsPerEntry) = word then 1 else 27 := rfl

theorem remove_left (cfg : Config) (tid : Nat) {f : RemoveFrame} (unmarked : ∀ b i, getMarked (m.hashTable b i) = false)
    (looks : (Control.remove f).Looks m)
    (keyed : ∀ g, f.pc = .find g → g.hash1 = f.hash1 ∧ g.hash2 = f.hash2) :
    (∃ location word, f.pc = .cas location
          (m.hashTable (f.hashVal location) (location % numItemsPerEntry)) ∧
        getRealPointer word = 0 ∧
        Alike (m.write (f.hashVal location) (location % numItemsPerEntry) word)
          (advance cfg tid m (.remove f)).1) ∨
      Alike m (advance cfg tid m (.remove f)).1 ∧
        (advance cfg tid m (.remove f)).2.left m < (Control.remove f).left m := by
  cases pc : f.pc with
  | find g =>
    have passed : g.Passed m := looks g pc
    have same := find_alike passed cfg tid
    have last := find_last passed
    refine .inr ?_
    simp only [advance,remove,pc]
    cases flow : find cfg tid m g with | mk next result =>
    rw [flow] at same
    cases result with
    | running after =>
      obtain ⟨less,fresh⟩ := find_left unmarked passed
        (show (find cfg tid m g).2 = .running after by rw [flow])
      refine ⟨same,?_⟩
      simp only [Control.left,pc,RemoveFrame.goto,fresh,Bool.false_eq_true,if_false]
      split <;> omega
    | returned result =>
      by_cases missing : result.1 = numItemsPerEntry * 2
      · simp only [missing,if_true]
        refine ⟨⟨same.table,same.heap⟩,?_⟩
        simp only [Control.left,pc]
        split <;> omega
      · simp only [missing,if_false]
        refine ⟨same,?_⟩
        obtain ⟨first,second⟩ := keyed g pc
        have returned : (find cfg tid m g).2 = .returned (result.1,result.2) := by rw [flow]
        have word := found_fresh passed first second returned missing
        have before : (Control.remove f).left m = g.left + if g.stale m then 28 else 2 := by
          simp only [Control.left,pc]
        rw [before,cas_left]
        cases stale : g.stale m with
        | false =>
          rw [if_pos (word.mpr stale)]
          simp only [Bool.false_eq_true,if_false]
          omega
        | true =>
          rw [if_neg (by rw [word,stale]; simp)]
          simp only [if_true]
          omega
  | cas location ptr1 =>
    obtain ⟨word,created⟩ := createPointer_exists (getCounter_le ptr1) 0 false
    by_cases found : m.hashTable (f.hashVal location) (location % numItemsPerEntry) = ptr1
    · refine .inl ⟨location,word,by rw [found],createPointer_real created null_fits,?_⟩
      simp only [advance,remove,pc,created,Memory.compareAndSwap,found,if_true]
      exact ⟨rfl,rfl⟩
    · refine .inr ?_
      simp only [advance,remove,pc,created,Memory.compareAndSwap,found,if_false]
      refine ⟨⟨rfl,rfl⟩,?_⟩
      have before : (Control.remove f).left m = 27 := by
        simp only [Control.left,pc,found,if_false]
      rw [before]
      exact show 24 + (if false = true then 28 else 2) < 27 by decide

def System.left (s : System) (threads : Nat) : Nat :=
  ∑ tid ∈ Finset.range threads, (s.control tid).left s.memory

/-- What a step of a call lessens: the entries in the table, or the steps left. -/
def System.remaining (cfg : Config) (threads : Nat) (s : System) : Nat :=
  (s.memory.bag cfg).card * (52 * threads + 1) + s.left threads

theorem system_left_le (s : System) (threads : Nat) : s.left threads ≤ 52 * threads := by
  have bound := Finset.sum_le_card_nsmul (Finset.range threads)
    (fun tid => (s.control tid).left s.memory) 52 fun tid _ => left_le s.memory _
  rw [Finset.card_range,smul_eq_mul,Nat.mul_comm] at bound
  exact bound

theorem remaining_alike (moved : StepBy cfg tid s t) (inside : tid < threads)
    (same : Alike s.memory t.memory)
    (less : (t.control tid).left s.memory < (s.control tid).left s.memory) :
    t.remaining cfg threads < s.remaining cfg threads := by
  have sum : t.left threads < s.left threads := by
    refine Finset.sum_lt_sum (fun other _ => ?_) ⟨tid,Finset.mem_range.mpr inside,?_⟩
    · rw [left_alike same]
      by_cases own : other = tid
      · exact own ▸ less.le
      · rw [stepBy_other moved own]
    · rw [left_alike same]
      exact less
  rw [System.remaining,System.remaining,bag_alike same]
  omega

theorem remaining_taken (slot : cfg.Slot b i)
    (full : getRealPointer (s.memory.hashTable b i) ≠ 0) (null : getRealPointer word = 0)
    (same : Alike (s.memory.write b i word) t.memory) :
    t.remaining cfg threads < s.remaining cfg threads := by
  have whole := congrArg Multiset.card (take_bag slot full null)
  rw [Multiset.card_cons,← bag_alike same] at whole
  have bound := system_left_le t threads
  rw [System.remaining,System.remaining,whole,Nat.add_mul]
  omega

theorem look_progress (reachable : Reachable cfg s) (looking : Looking s)
    (moved : StepBy cfg tid s t) (busy : s.control tid ≠ .idle) (inside : tid < threads) :
    t.remaining cfg threads < s.remaining cfg threads := by
  have accounted := reachable_accounted reachable
  have looks := looking.threads tid
  cases site : s.control tid with
  | idle => exact absurd site busy
  | insert f =>
    rw [site] at looks
    exact looks.elim
  | find key f =>
    rw [site] at looks
    have alike := find_alike looks cfg tid
    rcases find_moves moved site with ⟨after,flow,now⟩ | ⟨next,location,ptr,flow,memory,now⟩
    · have less := (find_left looking.unmarked looks
        (show (find cfg tid s.memory f).2 = .running after by rw [flow])).1
      rw [flow] at alike
      apply remaining_alike moved inside alike
      rw [now,site]
      exact less
    · rw [flow] at alike
      refine remaining_alike moved inside (memory ▸ ⟨alike.table,alike.heap⟩) ?_
      rw [now,site]
      exact find_last looks
  | remove f =>
    have keyed := accounted.formed.sound.keyed tid
    have shape := accounted.formed.control tid
    rw [site] at looks keyed shape
    obtain ⟨first,second,searches⟩ := keyed
    have hashes (g : FindFrame) (pc : f.pc = .find g) : g.hash1 = f.hash1 ∧ g.hash2 = f.hash2 := by
      obtain ⟨-,first',second',-⟩ := searches g (by rw [RemoveFrame.find?,pc])
      exact ⟨first'.trans first.symm,second'.trans second.symm⟩
    have outcome := remove_left cfg tid looking.unmarked looks hashes
    have stepped : t.memory = (advance cfg tid s.memory (.remove f)).1 ∧
        t.control tid = (advance cfg tid s.memory (.remove f)).2 := by
      obtain ⟨-,⟨action,raw⟩,-⟩ := stepBy_cases moved
      rw [site] at raw
      generalize t.control tid = after at raw ⊢
      generalize t.memory = next at raw ⊢
      cases threadStep_move raw with
      | remove => exact ⟨rfl,rfl⟩
    rw [← stepped.1,← stepped.2] at outcome
    rcases outcome with ⟨location,word,pc,null,same⟩ | ⟨same,less⟩
    · have present := (shape.2 location _ pc).1
      exact remaining_taken (holder_slot reachable present) present null same
    · apply remaining_alike moved inside same
      rw [site]
      exact less

theorem looking_alive (looking : Looking s) (moved : StepBy cfg tid s t) :
    t.memory.aborted = false := by
  rw [← Bool.not_eq_true]
  intro aborted
  obtain ⟨⟨frame,inside,-⟩,-⟩ := step_aborts moved aborted
  rw [(looking.threads tid).outside] at inside
  contradiction

theorem recorded_alive (resting : origin.Resting) (start : Reachable cfg origin)
    (living : origin.memory.aborted = false)
    {history : List (Linearization.Event Call Response)}
    (recorded : Recorded cfg (fun _ _ => True) origin history s) (insertless : Insertless history) :
    s.memory.aborted = false := by
  cases recorded with
  | start => exact living
  | invoke past _ moved =>
    exact looking_alive (recorded_looking resting start past insertless.before).2 ⟨_,moved⟩
  | inside past _ _ moved =>
    exact looking_alive (recorded_looking resting start past insertless).2 moved
  | respond past _ moved =>
    exact looking_alive (recorded_looking resting start past insertless.before).2 moved

theorem looking_moves (cfg : Config) (looking : Looking s) (alive : s.memory.aborted = false)
    (busy : s.control tid ≠ .idle) : ∃ t, StepBy cfg tid s t := by
  have looks := looking.threads tid
  have runs : threadStep cfg tid s.memory (s.control tid) .run =
      some (advance cfg tid s.memory (s.control tid)) := by
    cases site : s.control tid with
    | idle => exact absurd site busy
    | insert f =>
      rw [site] at looks
      exact looks.elim
    | find key f => rfl
    | remove f => rfl
  have moves : ∃ t, step cfg s tid .run = some t := by simp [step,alive,runs]
  obtain ⟨t,moved⟩ := moves
  exact ⟨t,.run,moved⟩

/-- In a phase without insertions that began at rest, whatever the order of the steps, the
calls in progress all answer. -/
theorem lookups_complete (start : Reachable cfg origin) (resting : origin.Resting)
    (living : origin.memory.aborted = false)
    {history : List (Linearization.Event Call Response)}
    (recorded : Recorded cfg (fun _ _ => True) origin history s) (insertless : Insertless history)
    (few : ∀ tid ≥ threads, s.control tid = .idle) :
    Transition.Inevitable (fun s t => ∃ tid, s.control tid ≠ .idle ∧ StepBy cfg tid s t)
      (fun t => ∀ tid, t.control tid = .idle) s := by
  obtain ⟨reachable,looking⟩ := recorded_looking resting start recorded insertless
  have alive := recorded_alive resting start living recorded insertless
  refine Transition.Inevitable.loop
    (fun t => Reachable cfg t ∧ Looking t ∧ t.memory.aborted = false ∧
      ∀ tid ≥ threads, t.control tid = .idle)
    (System.remaining cfg threads) ?_ ⟨reachable,looking,alive,few⟩
  rintro t ⟨reachable,looking,alive,few⟩
  by_cases ended : ∀ tid, t.control tid = .idle
  · exact .reached (.inl ended)
  · obtain ⟨tid,busy⟩ := not_forall.mp ended
    obtain ⟨u,moved⟩ := looking_moves cfg looking alive busy
    refine .later ⟨u,tid,busy,moved⟩ ?_
    rintro u ⟨mover,working,moved⟩
    have inside : mover < threads := by
      by_contra outside
      exact working (few mover (by omega))
    refine .reached (.inr ⟨⟨reachable.step moved,?_,looking_alive looking moved,?_⟩,
      look_progress reachable looking moved working inside⟩)
    · exact (looking_step looking moved fun idle => absurd idle working).2
    · intro other beyond
      rw [stepBy_other moved (by omega)]
      exact few other beyond

/-- Thread 0 has begun its search and thread 1 its removal. -/
theorem looking_completes : Transition.Inevitable
    (fun s t => ∃ tid, s.control tid ≠ .idle ∧ StepBy sampleConfig tid s t)
    (fun t => ∀ tid, t.control tid = .idle)
    (endState sampleConfig (restedSchedule ++ lookSchedule.take 3)) := by
  have callers : ∀ x ∈ restedSchedule ++ lookSchedule.take 3, x.1 < 2 := by decide +kernel
  have few (tid : Nat) (beyond : tid ≥ 2) :
      (endState sampleConfig (restedSchedule ++ lookSchedule.take 3)).control tid = .idle := by
    refine endState_other _ _ fun x member same => ?_
    have := callers x member
    omega
  have recorded : Recorded sampleConfig (fun _ _ => True) (endState sampleConfig restedSchedule)
      [.invoke 1 (.remove keyC),.invoke 0 (.find keyC)]
      (endState sampleConfig (restedSchedule ++ lookSchedule.take 3)) :=
    endState_recorded restedSchedule _ (by decide +kernel) (by decide +kernel)
  exact lookups_complete (endState_reachable _ _) rested_resting (by decide +kernel) recorded
    (by intro tid key; simp) few

/-- Classes put in more often than taken out in a first phase are there in a second one:
its removals succeed as often as they are, and while one more is there each search does. -/
theorem phases_succeed (power : cfg.tableSize = 2 ^ e)
    (first : Run cfg (Regular cfg) System.initial origin)
    (idle : ∀ tid, origin.control tid = .idle)
    {history : List (Linearization.Event Call Response)}
    (second : Recorded cfg (fun _ _ => True) origin history s) (insertless : Insertless history)
    (key : Bytes)
    (enough : ((Bag.removed origin.memory.history).map cfg.keyClass).count (cfg.keyClass key) +
        Bag.asked (cfg.keyClass key) (history.map (classEvent cfg)) ≤
      ((Bag.inserted origin.memory.history).map cfg.keyClass).count (cfg.keyClass key)) :
    (∀ tid response, .respond tid (.remove key) response ∈ history → response.success = true) ∧
    (((Bag.removed origin.memory.history).map cfg.keyClass).count (cfg.keyClass key) +
        Bag.asked (cfg.keyClass key) (history.map (classEvent cfg)) <
      ((Bag.inserted origin.memory.history).map cfg.keyClass).count (cfg.keyClass key) →
      ∀ tid response, .respond tid (.find key) response ∈ history → response.success = true) := by
  have count := congrArg (Multiset.count (cfg.keyClass key)) (rest_bag power first idle)
  rw [Multiset.count_add] at count
  have resting : origin.Resting := 
    ⟨idle,rest_unmarked (first.weaken fun _ _ regular => regular.2) idle⟩
  have linearizes := recorded_lookups power first.reachable resting second insertless
  refine ⟨fun tid response member => ?_,fun spare tid response member => ?_⟩
  · exact Bag.removals_succeed linearizes (by omega) (List.mem_map_of_mem member)
  · exact Bag.searches_succeed linearizes (by omega) (List.mem_map_of_mem member)

theorem rested_phases_succeed :
    (∀ tid response, .respond tid (.remove keyC) response ∈ lookHistory →
      response.success = true) ∧
    (((Bag.removed (endState sampleConfig restedSchedule).memory.history).map
          sampleConfig.keyClass).count (sampleConfig.keyClass keyC) +
        Bag.asked (sampleConfig.keyClass keyC) (lookHistory.map (classEvent sampleConfig)) <
      ((Bag.inserted (endState sampleConfig restedSchedule).memory.history).map
        sampleConfig.keyClass).count (sampleConfig.keyClass keyC) →
      ∀ tid response, .respond tid (.find keyC) response ∈ lookHistory →
        response.success = true) :=
  phases_succeed (e := 1) rfl rested_regular rested_idle looked_recorded looked_insertless keyC
    (by decide +kernel)

end CuckooFilter.LockFree
