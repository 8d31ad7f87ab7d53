import CuckooFilter.BagOwners
import CuckooFilter.SlotProgram

/-! The sequential filter as threads share it. Each operation takes `mtx`, reads and writes
the slots one after the other and gives the mutex back before it returns. -/
namespace CuckooFilter.SequentialFilter

abbrev Call := Bag.Op Bytes

section

variable (tableSize : Nat) (md5Fingerprint : Bytes → Bytes)

/-- The replace phase, `left` kicks before the end. -/
def kickCode (fingerprint : Bytes) (replaceHash : Nat) : Nat → Code Unit
  | 0 => leave () false
  | left + 1 => .choose fun rand =>
    let bucketIdx := rand % numItemsPerEntry
    .read (replaceHash,bucketIdx) fun victim =>
    let nextHash := getNextHashIndex tableSize replaceHash victim
    .write (replaceHash,bucketIdx) fingerprint
      (scanCode List.isEmpty nextHash (fun i => .write (nextHash,i) victim (leave () true))
        (kickCode victim nextHash left))

def insertCode (key : Bytes) : Code Unit :=
  let fingerprint := md5Fingerprint key
  let hash1 := (jenkinsHash key).toNat % tableSize
  let hash2 := getNextHashIndex tableSize hash1 fingerprint
  .acquire () .exclusive
    (scanCode List.isEmpty hash1 (fun i => .write (hash1,i) fingerprint (leave () true))
      (scanCode List.isEmpty hash2 (fun i => .write (hash2,i) fingerprint (leave () true))
        (.choose fun rand =>
          kickCode tableSize fingerprint (if rand % 2 = 0 then hash1 else hash2) numMaxKicks)))

def findCode (key : Bytes) : Code Unit :=
  let fingerprint := md5Fingerprint key
  let hash1 := (jenkinsHash key).toNat % tableSize
  let hash2 := getNextHashIndex tableSize hash1 fingerprint
  .acquire () .exclusive
    (scanCode (· = fingerprint) hash1 (fun _ => leave () true)
      (scanCode (· = fingerprint) hash2 (fun _ => leave () true) (leave () false)))

def removeCode (key : Bytes) : Code Unit :=
  let fingerprint := md5Fingerprint key
  let hash1 := (jenkinsHash key).toNat % tableSize
  let hash2 := getNextHashIndex tableSize hash1 fingerprint
  let test (str : Bytes) : Bool := str.length ≠ 0 ∧ str = fingerprint
  .acquire () .exclusive
    (scanCode test hash1 (fun i => .write (hash1,i) [] (leave () true))
      (scanCode test hash2 (fun i => .write (hash2,i) [] (leave () true)) (leave () false)))

def code : Call → Code Unit
  | .insert key => insertCode tableSize md5Fingerprint key
  | .find key => findCode tableSize md5Fingerprint key
  | .remove key => removeCode tableSize md5Fingerprint key

/-- Any interleaving of the operations of any number of threads on an empty table. -/
def Shared (s : Locking.System Call Unit Slot Bytes Bool) : Prop :=
  Locking.Reachable (code tableSize md5Fingerprint) (fun _ => []) s

/-- The filter as an object; calls of `rand()` come to anything. -/
def object : Linearization.Object Call Bool SequentialFilter where
  initial := new tableSize
  accepts s call answer t :=
    match call with
    | .insert key => ∃ rand, s.insert md5Fingerprint key rand = (t,answer)
    | .find key => s.find md5Fingerprint key = answer ∧ t = s
    | .remove key => s.remove md5Fingerprint key = (t,answer)

end

section

variable {tableSize : Nat} {md5Fingerprint : Bytes → Bytes} {cells after : Slot → Bytes}
variable {b i : Nat} {fingerprint key : Bytes} {rest : Code Unit}

def drawn (choice : Nat) (rand : Nat → Nat) : Nat → Nat
  | 0 => choice
  | n + 1 => rand n

theorem inside_kicks (left : Nat)
    (inside : Locking.Inside (kickCode tableSize fingerprint b left) cells after
      (.release () rest)) :
    ∃ rand answer, rest = .done answer ∧
      (ofCells tableSize cells).replace fingerprint b left rand =
        (ofCells tableSize after,answer) := by
  induction left generalizing fingerprint b cells with
  | zero =>
    obtain ⟨ended,kept⟩ := inside_leave tableSize inside
    exact ⟨fun _ => 0,false,ended,by rw [kept]; rfl⟩
  | succ left ih =>
    obtain ⟨choice,chosen⟩ := inside.of_choose
    have scanned := inside_scan tableSize chosen.of_read.of_write
    rw [ofCells_update] at scanned
    cases found : ((ofCells tableSize cells).write b (choice % numItemsPerEntry) fingerprint).scan
        List.isEmpty (getNextHashIndex tableSize b (cells (b,choice % numItemsPerEntry))) with
    | some i =>
      rw [found] at scanned
      obtain ⟨ended,kept⟩ := inside_store tableSize scanned
      refine ⟨fun _ => choice,true,ended,?_⟩
      rw [ofCells_update] at kept
      rw [kept,replace]
      simp only [ofCells] at found ⊢
      rw [found]
    | none =>
      rw [found] at scanned
      obtain ⟨rand,answer,ended,kept⟩ := ih scanned
      refine ⟨drawn choice rand,answer,ended,?_⟩
      rw [ofCells_update] at kept
      rw [← kept,replace]
      simp only [ofCells] at found ⊢
      simp only [drawn]
      rw [found]

theorem inside_insert (inside : ∃ mutex mode next,
      insertCode tableSize md5Fingerprint key = .acquire mutex mode next ∧
        Locking.Inside next cells after (.release mutex (.done answer))) :
    ∃ rand, (ofCells tableSize cells).insert md5Fingerprint key rand =
      (ofCells tableSize after,answer) := by
  obtain ⟨mutex,mode,next,site,inside⟩ := inside
  cases site
  have first := inside_scan tableSize inside
  unfold insert
  dsimp only
  cases home : (ofCells tableSize cells).scan List.isEmpty ((jenkinsHash key).toNat % tableSize) with
  | some i =>
    rw [home] at first
    obtain ⟨ended,kept⟩ := inside_store tableSize first
    cases ended
    refine ⟨fun _ => 0,?_⟩
    rw [ofCells_tableSize,home,kept]
  | none =>
    rw [home] at first
    have second := inside_scan tableSize first
    cases next : (ofCells tableSize cells).scan List.isEmpty (getNextHashIndex tableSize
        ((jenkinsHash key).toNat % tableSize) (md5Fingerprint key)) with
    | some i =>
      rw [next] at second
      obtain ⟨ended,kept⟩ := inside_store tableSize second
      cases ended
      refine ⟨fun _ => 0,?_⟩
      rw [ofCells_tableSize,home,next,kept]
    | none =>
      rw [next] at second
      obtain ⟨choice,kicks⟩ := second.of_choose
      obtain ⟨rand,answer,ended,kept⟩ := inside_kicks numMaxKicks kicks
      cases ended
      refine ⟨drawn choice rand,?_⟩
      rw [ofCells_tableSize,home,next]
      exact kept

theorem inside_find (inside : ∃ mutex mode next,
      findCode tableSize md5Fingerprint key = .acquire mutex mode next ∧
        Locking.Inside next cells after (.release mutex (.done answer))) :
    (ofCells tableSize cells).find md5Fingerprint key = answer ∧
      ofCells tableSize after = ofCells tableSize cells := by
  obtain ⟨mutex,mode,next,site,inside⟩ := inside
  cases site
  have first := inside_scan tableSize inside
  unfold find
  dsimp only
  rw [ofCells_tableSize]
  cases home : (ofCells tableSize cells).scan (· = md5Fingerprint key)
      ((jenkinsHash key).toNat % tableSize) with
  | some i =>
    rw [home] at first
    obtain ⟨ended,kept⟩ := inside_leave tableSize first
    cases ended
    exact ⟨rfl,kept⟩
  | none =>
    rw [home] at first
    have second := inside_scan tableSize first
    cases next : (ofCells tableSize cells).scan (· = md5Fingerprint key)
        (getNextHashIndex tableSize ((jenkinsHash key).toNat % tableSize)
          (md5Fingerprint key)) with
    | some i =>
      rw [next] at second
      obtain ⟨ended,kept⟩ := inside_leave tableSize second
      cases ended
      exact ⟨rfl,kept⟩
    | none =>
      rw [next] at second
      obtain ⟨ended,kept⟩ := inside_leave tableSize second
      cases ended
      exact ⟨rfl,kept⟩

theorem inside_remove (inside : ∃ mutex mode next,
      removeCode tableSize md5Fingerprint key = .acquire mutex mode next ∧
        Locking.Inside next cells after (.release mutex (.done answer))) :
    (ofCells tableSize cells).remove md5Fingerprint key = (ofCells tableSize after,answer) := by
  obtain ⟨mutex,mode,next,site,inside⟩ := inside
  cases site
  have first := inside_scan tableSize inside
  unfold remove
  dsimp only
  rw [ofCells_tableSize]
  cases home : (ofCells tableSize cells).scan
      (fun str => str.length ≠ 0 ∧ str = md5Fingerprint key)
      ((jenkinsHash key).toNat % tableSize) with
  | some i =>
    rw [home] at first
    obtain ⟨ended,kept⟩ := inside_store tableSize first
    cases ended
    exact congrArg (·,true) kept.symm
  | none =>
    rw [home] at first
    have second := inside_scan tableSize first
    cases next : (ofCells tableSize cells).scan
        (fun str => str.length ≠ 0 ∧ str = md5Fingerprint key)
        (getNextHashIndex tableSize ((jenkinsHash key).toNat % tableSize)
          (md5Fingerprint key)) with
    | some i =>
      rw [next] at second
      obtain ⟨ended,kept⟩ := inside_store tableSize second
      cases ended
      exact congrArg (·,true) kept.symm
    | none =>
      rw [next] at second
      obtain ⟨ended,kept⟩ := inside_leave tableSize second
      cases ended
      exact congrArg (·,false) kept.symm

theorem kick_disciplined (left : Nat) :
    Locking.Disciplined (fun _ => ()) (fun _ => False) (some ((),.exclusive))
      (kickCode tableSize fingerprint b left) := by
  induction left generalizing fingerprint b with
  | zero => exact ⟨⟨_,rfl⟩,rfl⟩
  | succ left ih =>
    exact fun _ => ⟨.inr ⟨_,rfl⟩,fun _ => ⟨.inr rfl,
      scan_disciplined (fun _ => rfl) (fun _ => ⟨.inr rfl,⟨_,rfl⟩,rfl⟩) ih⟩⟩

theorem code_disciplined (call : Call) :
    Locking.Disciplined (fun _ => ()) (fun _ => False) none
      (code tableSize md5Fingerprint call) := by
  cases call with
  | insert key =>
    exact ⟨rfl,scan_disciplined (fun _ => rfl) (fun _ => ⟨.inr rfl,⟨_,rfl⟩,rfl⟩)
      (scan_disciplined (fun _ => rfl) (fun _ => ⟨.inr rfl,⟨_,rfl⟩,rfl⟩)
        fun _ => kick_disciplined numMaxKicks)⟩
  | find key =>
    exact ⟨rfl,scan_disciplined (fun _ => rfl) (fun _ => ⟨⟨_,rfl⟩,rfl⟩)
      (scan_disciplined (fun _ => rfl) (fun _ => ⟨⟨_,rfl⟩,rfl⟩) ⟨⟨_,rfl⟩,rfl⟩)⟩
  | remove key =>
    exact ⟨rfl,scan_disciplined (fun _ => rfl) (fun _ => ⟨.inr rfl,⟨_,rfl⟩,rfl⟩)
      (scan_disciplined (fun _ => rfl) (fun _ => ⟨.inr rfl,⟨_,rfl⟩,rfl⟩) ⟨⟨_,rfl⟩,rfl⟩)⟩

theorem kick_ends (left : Nat) : (kickCode tableSize fingerprint b left).Ends := by
  induction left generalizing fingerprint b with
  | zero => trivial
  | succ left ih => exact fun _ _ => scan_ends (fun _ => trivial) ih

theorem code_whole (call : Call) : (code tableSize md5Fingerprint call).Whole := by
  cases call with
  | insert key =>
    exact scan_ends (fun _ => trivial)
      (scan_ends (fun _ => trivial) fun _ => kick_ends numMaxKicks)
  | find key => exact scan_ends (fun _ => trivial) (scan_ends (fun _ => trivial) trivial)
  | remove key => exact scan_ends (fun _ => trivial) (scan_ends (fun _ => trivial) trivial)

theorem sections_serve (shared : Shared tableSize md5Fingerprint s) :
    ∃ phases cells, Linearization.Linearizes (object tableSize md5Fingerprint) s.history phases
        (ofCells tableSize cells) ∧
      (s.locks () = [] → s.cells = cells) ∧
      ∀ tid, s.threads tid = .idle → phases tid = .idle := by
  obtain ⟨phases,cells,linearizes,free,idle⟩ :=
    Locking.sections_linearizable code_disciplined code_whole shared
  have serves : ∃ table, Linearization.Linearizes (object tableSize md5Fingerprint) s.history phases
      table ∧ ofCells tableSize cells = table := by
    apply linearizes.simulates (fun cells table => ofCells tableSize cells = table) rfl
    rintro cells table call answer after rfl accepted
    cases call with
    | insert key => exact ⟨_,inside_insert accepted,rfl⟩
    | find key => exact ⟨_,inside_find accepted,rfl⟩
    | remove key => exact ⟨_,inside_remove accepted,rfl⟩
  obtain ⟨_,serves,rfl⟩ := serves
  exact ⟨phases,cells,serves,fun none => free fun _ => none,idle⟩

/-- Whatever the interleaving, the answers are those of the calls one after the other. While
nobody is inside the mutex the slots are the table of that order. -/
theorem coarse_linearizable (shared : Shared tableSize md5Fingerprint s) :
    ∃ phases table, Linearization.Linearizes (object tableSize md5Fingerprint) s.history phases
        table ∧
      (s.locks () = [] → ofCells tableSize s.cells = table) ∧
      ∀ tid, s.threads tid = .idle → phases tid = .idle := by
  obtain ⟨phases,cells,linearizes,free,idle⟩ := sections_serve shared
  exact ⟨phases,_,linearizes,fun none => congrArg _ (free none),idle⟩

/-- Thread 1 searches for `a` while thread 0 is about to store it, and has to wait. -/
def waitingSchedule : List (Nat × Locking.Action Call) :=
  [(0,.invoke (.insert keyA))] ++ Locking.runs 0 2 ++ [(1,.invoke (.find keyA))]

def servedSchedule : List (Nat × Locking.Action Call) :=
  waitingSchedule ++ Locking.runs 0 3 ++ Locking.runs 1 4

def stateAfter (schedule : List (Nat × Locking.Action Call)) :
    Locking.System Call Unit Slot Bytes Bool :=
  Locking.endState (code 2 sampleMd5) (fun _ _ => True) (fun _ => []) schedule

theorem waiting_shared : Shared 2 sampleMd5 (stateAfter waitingSchedule) :=
  Locking.endState_run waitingSchedule (by decide +kernel)

theorem served_shared : Shared 2 sampleMd5 (stateAfter servedSchedule) :=
  Locking.endState_run servedSchedule (by decide +kernel)

theorem served_linearizable : (stateAfter servedSchedule).history =
      [.respond 1 (.find keyA) true,.respond 0 (.insert keyA) true,.invoke 1 (.find keyA),
        .invoke 0 (.insert keyA)] ∧
    ∃ phases table, Linearization.Linearizes (object 2 sampleMd5)
        (stateAfter servedSchedule).history phases table ∧
      ((stateAfter servedSchedule).locks () = [] →
        ofCells 2 (stateAfter servedSchedule).cells = table) ∧
      ∀ tid, (stateAfter servedSchedule).threads tid = .idle → phases tid = .idle :=
  ⟨by decide +kernel,coarse_linearizable served_shared⟩

/-- An insertion puts its class in; one that is refused has dropped a class. -/
theorem insert_lossy {s : SequentialFilter} (power : s.tableSize = 2 ^ e)
    (nonempty : ∀ key, md5Fingerprint key ≠ []) (key : Bytes) (rand : Nat → Nat) :
    Bag.LossyStep s.bag (.insert (keyClass s.tableSize md5Fingerprint key))
      (s.insert md5Fingerprint key rand).2 (s.insert md5Fingerprint key rand).1.bag := by
  cases answer : (s.insert md5Fingerprint key rand).2 with
  | true =>
    rw [insert_bag power nonempty key rand answer]
    exact .stored
  | false =>
    obtain ⟨first,second,kicks⟩ := insert_refused answer
    have home := home_lt power key
    have either (start : Nat) (chosen : start = (jenkinsHash key).toNat % s.tableSize ∨
        start = getNextHashIndex s.tableSize ((jenkinsHash key).toNat % s.tableSize)
          (md5Fingerprint key)) :
        start < s.tableSize ∧ (∀ i < numItemsPerEntry, s.hashTable start i ≠ []) ∧
          classAt s.tableSize start (md5Fingerprint key) =
            keyClass s.tableSize md5Fingerprint key := by
      rcases chosen with same | same
      · rw [same]
        exact ⟨home,fun i slot => scan_full first slot,rfl⟩
      · rw [same]
        exact ⟨getNextHashIndex_lt (Nat.zero_lt_of_lt home) _ _,
          fun i slot => scan_full second slot,classAt_alternate power home _⟩
    obtain ⟨inside,full,same⟩ := either _ (ite_eq_or_eq (rand 0 % 2 = 0) _ _)
    obtain ⟨hand,lost,kept⟩ :=
      replace_bag power inside full (nonempty key) numMaxKicks fun n => rand (n + 1)
    rw [← kicks,answer] at lost
    rw [← kicks,same] at kept
    cases hand with
    | none => contradiction
    | some dropped =>
      refine .dropped dropped ?_
      rw [← kept,Option.toList_some,Multiset.coe_singleton,add_comm,Multiset.singleton_add]

theorem object_bag {s t : SequentialFilter} (power : s.tableSize = 2 ^ e)
    (nonempty : ∀ key, md5Fingerprint key ≠ [])
    (accepted : (object tableSize md5Fingerprint).accepts s call answer t) :
    t.tableSize = s.tableSize ∧
      Bag.LossyStep s.bag (call.map (keyClass s.tableSize md5Fingerprint)) answer t.bag := by
  cases call with
  | insert key =>
    obtain ⟨rand,now⟩ := accepted
    have lossy := insert_lossy power nonempty key rand
    have size : (s.insert md5Fingerprint key rand).1.tableSize = s.tableSize :=
      insert_tableSize s key rand
    rw [now] at lossy size
    exact ⟨size,lossy⟩
  | find key =>
    obtain ⟨rfl,rfl⟩ := accepted
    have decided : t.find md5Fingerprint key =
        decide (keyClass t.tableSize md5Fingerprint key ∈ t.bag) := by
      rw [Bool.eq_iff_iff,find_iff power nonempty key,decide_eq_true_eq]
    rw [decided]
    exact ⟨rfl,.found⟩
  | remove key =>
    have size : (s.remove md5Fingerprint key).1.tableSize = s.tableSize := remove_tableSize s key
    rcases remove_bag power nonempty key with ⟨removed,now,kept⟩ | ⟨now,absent⟩
    · cases accepted.symm.trans now
      have member : keyClass s.tableSize md5Fingerprint key ∈ s.bag :=
        kept ▸ Multiset.mem_cons_self _ _
      have rest : t.bag = s.bag.erase (keyClass s.tableSize md5Fingerprint key) := by
        rw [kept,Multiset.erase_cons_head]
      rw [now] at size
      refine ⟨size,?_⟩
      rw [rest]
      exact .removed member
    · cases accepted.symm.trans now
      exact ⟨rfl,.missing absent⟩

abbrev bagObject : Linearization.Object (Bag.Op KeyClass) Bool (Multiset KeyClass) :=
  ⟨0,Bag.LossyStep⟩

theorem classes_serve (power : tableSize = 2 ^ e) (nonempty : ∀ key, md5Fingerprint key ≠ [])
    (shared : Shared tableSize md5Fingerprint s) :
    ∃ phases cells, Linearization.Linearizes bagObject
        (s.history.map (.map (.map (keyClass tableSize md5Fingerprint)) id)) phases
        (ofCells tableSize cells).bag ∧
      (s.locks () = [] → s.cells = cells) ∧ ∀ tid, s.threads tid = .idle → phases tid = .idle := by
  obtain ⟨phases,cells,linearizes,free,idle⟩ := sections_serve shared
  have serves : ∃ bag, Linearization.Linearizes bagObject
      (s.history.map (.map (.map (keyClass tableSize md5Fingerprint)) id))
      (fun tid => (phases tid).map (.map (keyClass tableSize md5Fingerprint)) id) bag ∧
        (ofCells tableSize cells).tableSize = tableSize ∧ (ofCells tableSize cells).bag = bag := by
    have empty : (new tableSize).bag = bagObject.initial := bag_new tableSize
    refine linearizes.refines _ _ (fun table bag => table.tableSize = tableSize ∧ table.bag = bag)
      ⟨rfl,empty⟩ ?_
    rintro s _ call answer t ⟨size,rfl⟩ accepted
    obtain ⟨kept,stepped⟩ := object_bag (size.trans power) nonempty accepted
    rw [size] at stepped
    exact ⟨_,stepped,kept.trans size,rfl⟩
  obtain ⟨_,serves,-,rfl⟩ := serves
  refine ⟨_,cells,serves,free,fun tid rests => ?_⟩
  rw [idle tid rests]
  rfl

/-- On any number of threads the filter is a bag of classes, from which an insertion that is
refused takes one. While nobody is inside the mutex the table holds that bag. -/
theorem coarse_bag (power : tableSize = 2 ^ e) (nonempty : ∀ key, md5Fingerprint key ≠ [])
    (shared : Shared tableSize md5Fingerprint s) :
    ∃ phases bag, Linearization.Linearizes bagObject
        (s.history.map (.map (.map (keyClass tableSize md5Fingerprint)) id)) phases bag ∧
      (s.locks () = [] → (ofCells tableSize s.cells).bag = bag) ∧
      ∀ tid, s.threads tid = .idle → phases tid = .idle := by
  obtain ⟨phases,cells,linearizes,free,idle⟩ := classes_serve power nonempty shared
  exact ⟨phases,_,linearizes,fun none => by rw [free none],idle⟩

theorem served_bag : ∃ phases bag, Linearization.Linearizes bagObject
      ((stateAfter servedSchedule).history.map (.map (.map (keyClass 2 sampleMd5)) id)) phases bag ∧
    ((stateAfter servedSchedule).locks () = [] →
      (ofCells 2 (stateAfter servedSchedule).cells).bag = bag) ∧
    ∀ tid, (stateAfter servedSchedule).threads tid = .idle → phases tid = .idle :=
  coarse_bag (e := 1) rfl sampleMd5_nonempty served_shared

/-- When all calls have answered, none of them a refused insertion, and each thread has removed
only keys that it had put in itself, every removal has succeeded, and every search for a key
that its caller had put in. -/
theorem coarse_owners (power : tableSize = 2 ^ e) (nonempty : ∀ key, md5Fingerprint key ≠ [])
    (shared : Shared tableSize md5Fingerprint s) (ended : ∀ tid, s.threads tid = .idle)
    (stored : ∀ tid key, .respond tid (.insert key) false ∉ s.history)
    (owning : Bag.Owning s.history) :
    (∀ tid key answer, .respond tid (.remove key) answer ∈ s.history → answer = true) ∧
      ∀ past tid key answer, .respond tid (.find key) answer :: past <:+ s.history →
        Bag.Owned tid key past → answer = true := by
  obtain ⟨phases,_,linearizes,-,idle⟩ := classes_serve power nonempty shared
  have unrefused : Bag.Unrefused
      (s.history.map (.map (.map (keyClass tableSize md5Fingerprint)) id)) phases := by
    refine ⟨fun tid c refused => ?_,fun tid c there => ?_⟩
    · cases (idle tid (ended tid)).symm.trans refused
    · obtain ⟨event,member,same⟩ := List.mem_map.mp there
      rcases event with ⟨mover,call⟩ | ⟨mover,call,answer⟩
      · cases same
      · cases call <;> cases same
        exact stored tid _ member
  obtain ⟨removes,finds⟩ := Bag.owners_succeed linearizes unrefused (owning.map _)
  refine ⟨fun tid key answer there => ?_,fun past tid key answer within owned => ?_⟩
  · exact removes tid _ answer (List.mem_map_of_mem there)
  · have within' := within.map (Linearization.Event.map
      (Bag.Op.map (keyClass tableSize md5Fingerprint)) (id : Bool → Bool))
    exact finds _ tid _ answer within' (owned.map _)

/-- Each of two threads puts one key in; thread 0 searches for its own while thread 1 takes
its own out. -/
def ownersSchedule : List (Nat × Locking.Action Call) :=
  [(0,.invoke (.insert keyA))] ++ Locking.runs 0 5 ++ [(1,.invoke (.insert keyF))] ++
    Locking.runs 1 6 ++ [(0,.invoke (.find keyA)),(1,.invoke (.remove keyF))] ++
    Locking.runs 0 4 ++ Locking.runs 1 6

theorem owners_shared : Shared 2 sampleMd5 (stateAfter ownersSchedule) :=
  Locking.endState_run ownersSchedule (by decide +kernel)

theorem owners_ended : ∀ tid, (stateAfter ownersSchedule).threads tid = .idle :=
  Locking.endState_idle (n := 2) ownersSchedule rfl (by decide +kernel) (by decide +kernel)

theorem owners_history : (stateAfter ownersSchedule).history =
    [.respond 1 (.remove keyF) true,.respond 0 (.find keyA) true,.invoke 1 (.remove keyF),
      .invoke 0 (.find keyA),.respond 1 (.insert keyF) true,.invoke 1 (.insert keyF),
      .respond 0 (.insert keyA) true,.invoke 0 (.insert keyA)] := by
  decide +kernel

theorem owners_owning : Bag.Owning (stateAfter ownersSchedule).history := by
  rw [owners_history]
  simp only [Bag.Owning,reduceCtorEq,Linearization.Event.invoke.injEq,Bag.Op.remove.injEq,and_imp,
    false_implies,implies_true,and_false,and_true,true_and]
  rintro tid c rfl rfl
  decide +kernel

theorem owners_served :
    (∀ tid key answer, .respond tid (.remove key) answer ∈ (stateAfter ownersSchedule).history →
      answer = true) ∧
    ∀ past tid key answer,
      .respond tid (.find key) answer :: past <:+ (stateAfter ownersSchedule).history →
        Bag.Owned tid key past → answer = true := by
  refine coarse_owners (e := 1) rfl sampleMd5_nonempty owners_shared owners_ended ?_ owners_owning
  intro tid key
  simp [owners_history]

theorem shared_sound (shared : Shared tableSize md5Fingerprint s) :
    Locking.Sound (fun _ => ()) (fun _ _ => False) s := Locking.run_sound code_disciplined shared

/-- No schedule keeps the calls in progress from ending, with the mutex free at the end. -/
theorem coarse_completes (shared : Shared tableSize md5Fingerprint s) :
    Transition.Inevitable
      (fun s t => ∃ tid choice, Locking.step (code tableSize md5Fingerprint) s tid (.run choice) =
        some t)
      (fun s => (∀ tid, s.threads tid = .idle) ∧ s.locks () = []) s := by
  have ends := Locking.completes (code tableSize md5Fingerprint) code_disciplined (shared_sound shared)
  refine (ends.keep (Locking.Sound (fun _ => ()) fun _ _ => False) ?_ (shared_sound shared)).mono ?_
  · rintro s t sound ⟨tid,choice,moved⟩
    exact Locking.sound_step code_disciplined sound moved
  · exact fun t ⟨idle,sound⟩ => ⟨idle,sound.unlocked idle ()⟩

theorem waiting_completes : (stateAfter waitingSchedule).locks () = [(0,.exclusive)] ∧
    Transition.Inevitable
      (fun s t => ∃ tid choice, Locking.step (code 2 sampleMd5) s tid (.run choice) = some t)
      (fun s => (∀ tid, s.threads tid = .idle) ∧ s.locks () = []) (stateAfter waitingSchedule) :=
  ⟨by decide +kernel,coarse_completes waiting_shared⟩

end

end CuckooFilter.SequentialFilter
