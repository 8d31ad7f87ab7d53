import CuckooFilter.FineGrainedFind
import CuckooFilter.FineGrainedRefinement
import CuckooFilter.SequentialProgram

/-! The filter with stripe mutexes beside the sequential one. While an insertion is not
overlapped by other calls its swaps are as good as locked, and every call does to the slots
just what the sequential filter does. -/
namespace CuckooFilter.FineGrained

open SequentialFilter (ofCells drawn)

variable {cfg : Config} {a s : Threads} {table now : Table} {g : InsertFrame} {tid : Nat}

/-- The scan after a swap, and the kicks that are left if it finds nothing. -/
def settle (table : Table) (fingerprint : Bytes) (bucket left : Nat) (rand : Nat → Nat) :
    Table × Bool :=
  match table.scan List.isEmpty bucket with
  | some i => (table.write bucket i fingerprint,true)
  | none => table.replace fingerprint bucket left rand

/-- What a running insertion comes to when nobody else touches the table. -/
def InsertFrame.finish (cfg : Config) (f : InsertFrame) (table : Table) (rand : Nat → Nat) :
    Table × Bool :=
  let kicks := table.replace f.fingerprint (if rand 0 % 2 = 0 then f.hash1 else f.hash2)
    numMaxKicks fun n => rand (n + 1)
  let second :=
    match table.scan List.isEmpty f.hash2 with
    | some i => (table.write f.hash2 i f.fingerprint,true)
    | none => kicks
  match f.pc with
  | .first =>
    match table.scan List.isEmpty f.hash1 with
    | some i => (table.write f.hash1 i f.fingerprint,true)
    | none => second
  | .second => second
  | .flag => kicks
  | .swap n b => table.replace f.fingerprint b (numMaxKicks - n) rand
  | .write n b i victim =>
    settle (table.write b i f.fingerprint) victim (getNextHashIndex cfg.tableSize b victim)
      (numMaxKicks - (n + 1)) rand
  | .place n b => settle table f.fingerprint b (numMaxKicks - (n + 1)) rand

theorem enter_finish (size : table.tableSize = cfg.tableSize) (key : Bytes) (rand : Nat → Nat) :
    (InsertFrame.enter cfg key).finish cfg table rand =
      table.insert cfg.md5Fingerprint key rand := by
  rw [SequentialFilter.insert,size]
  rfl

theorem swap_finish (size : table.tableSize = cfg.tableSize) (pc : g.pc = .swap n b)
    (less : n < numMaxKicks) (rand : Nat → Nat) : g.finish cfg table rand =
      (g.goto (.write n b (rand 0 % numItemsPerEntry)
        (table.hashTable b (rand 0 % numItemsPerEntry)))).finish cfg table fun n => rand (n + 1) := by
  simp only [InsertFrame.finish,pc,InsertFrame.goto]
  rw [show numMaxKicks - n = numMaxKicks - (n + 1) + 1 by omega,SequentialFilter.replace,size]
  rfl

variable (cfg table) in
theorem section_finish (under : ∀ n b, g.pc ≠ .swap n b) (begun : g.pc ≠ .flag) (rand : Nat → Nat) :
    match insert cfg .split table g 0 with
    | (next,.inl after) => g.finish cfg table rand = after.finish cfg next rand
    | (next,.inr answer) => g.finish cfg table rand = (next,answer) := by
  cases pc : g.pc with
  | first =>
    simp only [insert,pc]
    cases found : table.scan List.isEmpty g.hash1 with
    | some i => simp only [InsertFrame.finish,pc,found]
    | none => simp only [InsertFrame.finish,pc,found,InsertFrame.goto]
  | second =>
    simp only [insert,pc]
    cases found : table.scan List.isEmpty g.hash2 with
    | some i => simp only [InsertFrame.finish,pc,found]
    | none => simp only [InsertFrame.finish,pc,found,InsertFrame.goto]
  | flag => exact absurd pc begun
  | swap n b => exact absurd pc (under n b)
  | write n b i victim =>
    simp only [insert,pc,InsertFrame.swapped,InsertFrame.finish]
  | place n b =>
    simp only [insert,pc]
    cases found : table.scan List.isEmpty b with
    | some i => simp only [InsertFrame.finish,pc,settle,found]
    | none =>
      by_cases again : n + 1 < numMaxKicks
      · simp only [if_pos again,InsertFrame.finish,pc,settle,found,InsertFrame.goto]
      · simp only [if_neg again,InsertFrame.finish,pc,settle,found]
        rw [show numMaxKicks - (n + 1) = 0 by omega]
        rfl

/-- A search or a removal in its second bucket, with the first one still without the
fingerprint. -/
structure LookFrame.Looks (cfg : Config) (table : Table) (f : LookFrame) : Prop where
  proper : f.Proper cfg
  behind : f.second = true → ¬Holds table f.hash1 f.fingerprint

theorem LookFrame.Proper.nonempty {f : LookFrame} (proper : f.Proper cfg) : f.fingerprint ≠ [] := by
  rw [proper.fingerprint]
  exact cfg.nonempty f.key

/-- The two tests of `remove` are one. -/
theorem remove_test {fingerprint : Bytes} (nonempty : fingerprint ≠ []) :
    (fun str : Bytes => decide (str.length ≠ 0 ∧ str = fingerprint)) = (· = fingerprint) := by
  funext str
  refine decide_eq_decide.mpr ⟨And.right,fun same => ⟨?_,same⟩⟩
  rw [same]
  exact fun empty => nonempty (List.length_eq_zero_iff.mp empty)

theorem find_looks (size : table.tableSize = cfg.tableSize) {f : LookFrame}
    (looks : f.Looks cfg table) :
    match find table f with
    | (next,.inl after) => next = table ∧ after.key = f.key ∧ after.Looks cfg table
    | (next,.inr answer) => next = table ∧ table.find cfg.md5Fingerprint f.key = answer := by
  obtain ⟨proper,behind⟩ := looks
  have whole : table.find cfg.md5Fingerprint f.key =
      match table.scan (· = f.fingerprint) f.hash1 with
      | some _ => true
      | none =>
        match table.scan (· = f.fingerprint) f.hash2 with
        | some _ => true
        | none => false := by
    rw [proper.fingerprint,proper.first,proper.second,Config.hash2,Config.hash1,← size]
    rfl
  cases second : f.second with
  | true =>
    rw [(scan_holds table f.hash1 f.fingerprint).mpr (behind second)] at whole
    simp only [find,LookFrame.bucket,second,if_true]
    cases found : table.scan (· = f.fingerprint) f.hash2 with
    | some i =>
      rw [found] at whole
      exact ⟨rfl,whole⟩
    | none =>
      rw [found] at whole
      simp only [LookFrame.miss,second,if_true]
      exact ⟨trivial,whole⟩
  | false =>
    simp only [find,LookFrame.bucket,second,Bool.false_eq_true,if_false]
    cases found : table.scan (· = f.fingerprint) f.hash1 with
    | some i =>
      rw [found] at whole
      exact ⟨rfl,whole⟩
    | none =>
      simp only [LookFrame.miss,second,Bool.false_eq_true,if_false]
      exact ⟨trivial,trivial,⟨proper.fingerprint,proper.first,proper.second⟩,
        fun _ => (scan_holds table f.hash1 f.fingerprint).mp found⟩

theorem remove_looks (size : table.tableSize = cfg.tableSize) {f : LookFrame}
    (looks : f.Looks cfg table) :
    match remove table f with
    | (next,.inl after) => next = table ∧ after.key = f.key ∧ after.Looks cfg table
    | (next,.inr answer) => table.remove cfg.md5Fingerprint f.key = (next,answer) ∧
        (next = table ∨ ∃ b i, next = table.write b i []) := by
  obtain ⟨proper,behind⟩ := looks
  have test := remove_test proper.nonempty
  have whole : table.remove cfg.md5Fingerprint f.key =
      match table.scan (· = f.fingerprint) f.hash1 with
      | some i => (table.write f.hash1 i [],true)
      | none =>
        match table.scan (· = f.fingerprint) f.hash2 with
        | some i => (table.write f.hash2 i [],true)
        | none => (table,false) := by
    rw [← test,proper.fingerprint,proper.first,proper.second,Config.hash2,Config.hash1,← size]
    rfl
  cases second : f.second with
  | true =>
    rw [(scan_holds table f.hash1 f.fingerprint).mpr (behind second)] at whole
    simp only [remove,LookFrame.bucket,second,if_true,test]
    cases found : table.scan (· = f.fingerprint) f.hash2 with
    | some i =>
      rw [found] at whole
      exact ⟨whole,.inr ⟨_,_,rfl⟩⟩
    | none =>
      rw [found] at whole
      simp only [LookFrame.miss,second,if_true]
      exact ⟨whole,.inl trivial⟩
  | false =>
    simp only [remove,LookFrame.bucket,second,Bool.false_eq_true,if_false,test]
    cases found : table.scan (· = f.fingerprint) f.hash1 with
    | some i =>
      rw [found] at whole
      exact ⟨whole,.inr ⟨_,_,rfl⟩⟩
    | none =>
      simp only [LookFrame.miss,second,Bool.false_eq_true,if_false]
      exact ⟨trivial,trivial,⟨proper.fingerprint,proper.first,proper.second⟩,
        fun _ => (scan_holds table f.hash1 f.fingerprint).mp found⟩

theorem LookFrame.Looks.cleared {f : LookFrame} (looks : f.Looks cfg table) (b i : Nat) :
    f.Looks cfg (table.write b i []) := by
  refine ⟨looks.proper,fun second holds => looks.behind second ?_⟩
  obtain ⟨j,slot,here⟩ := holds
  refine ⟨j,slot,?_⟩
  by_cases same : f.hash1 = b ∧ j = i
  · simp only [SequentialFilter.write,same,and_self,if_true] at here
    exact absurd here.symm looks.proper.nonempty
  · simpa only [SequentialFilter.write,same,if_false] using here

def Inserting : Locking.Thread Call Nat Slot Bytes Bool → Prop
  | .running (.insert _) _ => True
  | _ => False

/-- No other thread is inside an insertion, and an insertion has no other call beside it. -/
def Apart (tid : Nat) (s : Threads) : Prop :=
  ∀ other, other ≠ tid → ¬Inserting (s.threads other) ∧
    (Inserting (s.threads tid) → s.threads other = .idle)

/-- The slot that the swap of a kick loop has drawn. -/
def drawnSlot : Locking.Thread Call Nat Slot Bytes Bool → Option Nat
  | .running _ (.read (_,i) _) => some i
  | _ => none

def answeredPhase : Locking.Thread Call Nat Slot Bytes Bool → Linearization.Phase Call Bool
  | .running call (.done answer) => .effective call answer
  | _ => .idle

/-- What a thread has done to `table` so far, and what it will have done when it is left
alone with the slots of `now`. -/
def Agrees (cfg : Config) (table now : Table) (thread : Locking.Thread Call Nat Slot Bytes Bool)
    (phase : Linearization.Phase Call Bool) : Control → Prop
  | .idle => phase = answeredPhase thread
  | .insert f => phase = .pending (.insert f.key) ∧
    ∀ rand, (∀ i, drawnSlot thread = some i → rand 0 % numItemsPerEntry = i) →
      ∃ rand', table.insert cfg.md5Fingerprint f.key rand' = f.finish cfg now rand
  | .find f => phase = .pending (.find f.key) ∧ f.Looks cfg table
  | .remove f => phase = .pending (.remove f.key) ∧ f.Looks cfg table

/-- The sequential filter with a table of its own to begin with. -/
def sequentialFrom (cfg : Config) (start : Table) : Linearization.Object Call Bool Table :=
  ⟨start,(SequentialFilter.object cfg.tableSize cfg.md5Fingerprint).accepts⟩

/-- The whole sections beside the sequential filter. -/
structure Serves (cfg : Config) (start : Table) (a : Threads)
    (phases : Nat → Linearization.Phase Call Bool) (table : Table) : Prop where
  linearizes : Linearization.Linearizes (sequentialFrom cfg start) a.history phases table
  size : table.tableSize = cfg.tableSize
  agrees : ∀ tid, ∃ c, Follows cfg (a.threads tid) c ∧
    Agrees cfg table (ofCells cfg.tableSize a.cells) (a.threads tid) (phases tid) c
  same : (∀ tid key, phases tid ≠ .pending (.insert key)) → ofCells cfg.tableSize a.cells = table

theorem serves_initial (cfg : Config) (cells : Slot → Bytes) :
    Serves cfg (ofCells cfg.tableSize cells) (Locking.System.initial cells) (fun _ => .idle)
      (ofCells cfg.tableSize cells) :=
  ⟨.start,rfl,fun _ => ⟨.idle,.idle,rfl⟩,fun _ => rfl⟩

variable {start table' : Table} {phases : Nat → Linearization.Phase Call Bool}

theorem Serves.move (serves : Serves cfg start a phases table) {cells : Slot → Bytes}
    {thread : Locking.Thread Call Nat Slot Bytes Bool} {phase : Linearization.Phase Call Bool}
    {history : List (Linearization.Event Call Bool)} {c : Control}
    (linearizes : Linearization.Linearizes (sequentialFrom cfg start) history
      (Function.update phases tid phase) table')
    (size : table'.tableSize = cfg.tableSize) (follows : Follows cfg thread c)
    (agrees : Agrees cfg table' (ofCells cfg.tableSize cells) thread phase c)
    (others : ∀ other, other ≠ tid → ∀ c, Follows cfg (a.threads other) c →
      Agrees cfg table (ofCells cfg.tableSize a.cells) (a.threads other) (phases other) c →
      Agrees cfg table' (ofCells cfg.tableSize cells) (a.threads other) (phases other) c)
    (same : (∀ other key, Function.update phases tid phase other ≠ .pending (.insert key)) →
      ofCells cfg.tableSize cells = table') :
    Serves cfg start ⟨cells,a.locks,a.become tid thread,history⟩
      (Function.update phases tid phase) table' := by
  refine ⟨linearizes,size,fun mover => ?_,same⟩
  by_cases own : mover = tid
  · subst mover
    refine ⟨c,?_⟩
    simpa only [Locking.become_own,Function.update_self] using And.intro follows agrees
  · obtain ⟨c,follows,agrees⟩ := serves.agrees mover
    refine ⟨c,?_⟩
    simpa only [Locking.become_other a _ own,Function.update_of_ne own] using
      And.intro follows (others mover own c follows agrees)

theorem Agrees.idle {phase : Linearization.Phase Call Bool} {c : Control}
    (agrees : Agrees cfg table now .idle phase c) (follows : Follows cfg .idle c)
    (table' now' : Table) : Agrees cfg table' now' .idle phase c := by
  cases follows
  exact agrees

theorem Agrees.cleared {thread : Locking.Thread Call Nat Slot Bytes Bool}
    {phase : Linearization.Phase Call Bool} {c : Control}
    (agrees : Agrees cfg table now thread phase c) (follows : Follows cfg thread c)
    (looking : ¬Inserting thread) (b i : Nat) (now' : Table) :
    Agrees cfg (table.write b i []) now' thread phase c := by
  cases follows with
  | idle | answered => exact agrees
  | insert | swap => exact absurd trivial looking
  | find f site => exact ⟨agrees.1,agrees.2.cleared b i⟩
  | remove f site => exact ⟨agrees.1,agrees.2.cleared b i⟩

theorem Agrees.inserting {thread : Locking.Thread Call Nat Slot Bytes Bool}
    {phase : Linearization.Phase Call Bool} {c : Control}
    (agrees : Agrees cfg table now thread phase c) (follows : Follows cfg thread c)
    (pending : phase = .pending (.insert key)) : Inserting thread := by
  cases follows with
  | idle =>
    cases pending.symm.trans agrees
  | answered ended =>
    subst ended
    cases pending.symm.trans agrees
  | insert | swap => trivial
  | find f site => cases pending.symm.trans agrees.1
  | remove f site => cases pending.symm.trans agrees.1

/-- Outside insertions the slots are the table. -/
theorem Serves.quiet (serves : Serves cfg start a phases table) (apart : Apart tid a)
    (looking : ¬Inserting (a.threads tid)) : ofCells cfg.tableSize a.cells = table := by
  refine serves.same fun mover key pending => ?_
  obtain ⟨c,follows,agrees⟩ := serves.agrees mover
  have inside := agrees.inserting follows pending
  by_cases own : mover = tid
  · exact looking (own ▸ inside)
  · exact (apart mover own).1 inside

theorem Apart.others (apart : Apart tid a) (inside : Inserting (a.threads tid))
    (table' now' : Table) (other : Nat) (away : other ≠ tid) (c : Control)
    (follows : Follows cfg (a.threads other) c)
    (agrees : Agrees cfg table now (a.threads other) (phases other) c) :
    Agrees cfg table' now' (a.threads other) (phases other) c := by
  rw [(apart other away).2 inside] at follows agrees ⊢
  exact agrees.idle follows table' now'

theorem invoke_serves (serves : Serves cfg start a phases table) (apart : Apart tid a)
    (idle : a.threads tid = .idle) (call : Call) : ∃ phases table, Serves cfg start
      ⟨a.cells,a.locks,a.become tid (.running call (code cfg call)),.invoke tid call :: a.history⟩
      phases table := by
  obtain ⟨c,follows,agrees⟩ := serves.agrees tid
  have now := serves.quiet apart (by rw [idle]; exact id)
  rw [idle] at follows agrees
  cases follows
  refine ⟨_,table,serves.move (serves.linearizes.invoke agrees call) serves.size
    (enter_code cfg call) ?_ (fun _ _ _ _ agrees => agrees) fun _ => now⟩
  cases call with
  | insert key =>
    refine ⟨rfl,fun rand _ => ⟨rand,?_⟩⟩
    rw [now,enter_finish serves.size key rand]
    rfl
  | find key => exact ⟨rfl,look_proper cfg key,fun second => by cases second⟩
  | remove key => exact ⟨rfl,look_proper cfg key,fun second => by cases second⟩

theorem done_serves (serves : Serves cfg start a phases table)
    (site : a.threads tid = .running call (.done answer)) : ∃ phases table, Serves cfg start
      ⟨a.cells,a.locks,a.become tid .idle,.respond tid call answer :: a.history⟩ phases table := by
  obtain ⟨c,follows,agrees⟩ := serves.agrees tid
  rw [site] at follows agrees
  obtain rfl := follows.ended
  refine ⟨_,table,serves.move (serves.linearizes.respond agrees) serves.size .idle rfl
    (fun _ _ _ _ agrees => agrees) fun none => serves.same fun mover key pending => ?_⟩
  by_cases own : mover = tid
  · subst mover
    cases pending.symm.trans agrees
  · exact none mover key (by rwa [Function.update_of_ne own])

theorem insert_serves (serves : Serves cfg start a phases table) (apart : Apart tid a)
    {program next : Code Nat} {cells : Slot → Bytes} {f : InsertFrame} (after : InsertFrame)
    (site : a.threads tid = .running (.insert f.key) program)
    (pending : phases tid = .pending (.insert f.key)) (key : after.key = f.key)
    (follows : Follows cfg (.running (.insert f.key) next) (.insert after))
    (goes : ∀ rand, (∀ i, drawnSlot (.running (.insert f.key) next) = some i →
      rand 0 % numItemsPerEntry = i) → ∃ rand', table.insert cfg.md5Fingerprint f.key rand' =
        after.finish cfg (ofCells cfg.tableSize cells) rand) :
    ∃ phases table, Serves cfg start
      ⟨cells,a.locks,a.become tid (.running (.insert f.key) next),a.history⟩ phases table := by
  have inside : Inserting (a.threads tid) := by
    rw [site]
    trivial
  have linearizes : Linearization.Linearizes (sequentialFrom cfg start) a.history
      (Function.update phases tid (.pending (.insert f.key))) table := by
    rw [← pending,Function.update_eq_self]
    exact serves.linearizes
  refine ⟨_,table,serves.move linearizes serves.size follows ⟨by rw [key],by rw [key]; exact goes⟩
    (apart.others inside table _) fun none => ?_⟩
  exact absurd (Function.update_self ..) (none tid f.key)

theorem read_serves (serves : Serves cfg start a phases table) (apart : Apart tid a)
    (site : a.threads tid = .running call (.read cell next)) : ∃ phases table, Serves cfg start
      ⟨a.cells,a.locks,a.become tid (.running call (next (a.cells cell))),a.history⟩
      phases table := by
  obtain ⟨c,follows,agrees⟩ := serves.agrees tid
  rw [site] at follows agrees
  obtain ⟨f,n,b,i,rfl,rfl,counts,pc,slot,read⟩ := follows.reading
  cases read
  have less := counts n (by rw [pc]; rfl)
  have swaps : (f.goto (.write n b i (a.cells (b,i)))).Counts := by
    intro m kick
    cases kick
    exact less
  refine insert_serves serves apart (f.goto (.write n b i (a.cells (b,i)))) site agrees.1 rfl
    (.insert (f.goto (.write n b i (a.cells (b,i)))) swaps rfl) fun rand _ => ?_
  obtain ⟨rand',goes⟩ := agrees.2 (drawn i rand) fun j draws => by
    cases draws
    exact Nat.mod_eq_of_lt slot
  refine ⟨rand',goes.trans ?_⟩
  rw [swap_finish rfl pc less]
  simp only [drawn,Nat.mod_eq_of_lt slot]
  rfl

theorem write_serves (serves : Serves cfg start a phases table) (apart : Apart tid a)
    (site : a.threads tid = .running call (.write cell value next)) : ∃ phases table,
      Serves cfg start ⟨Function.update a.cells cell value,a.locks,
        a.become tid (.running call next),a.history⟩ phases table := by
  obtain ⟨c,follows,agrees⟩ := serves.agrees tid
  rw [site] at follows agrees
  obtain ⟨f,n,b,i,victim,rfl,rfl,counts,pc,write⟩ := follows.writing
  cases write
  have less := counts n (by rw [pc]; rfl)
  let after : InsertFrame :=
    ⟨f.key,victim,f.hash1,f.hash2,.place n (getNextHashIndex cfg.tableSize b victim)⟩
  have places : after.Counts := by
    intro m kick
    cases kick
    exact less
  refine insert_serves serves apart after site agrees.1 rfl (.insert after places rfl)
    fun rand _ => ?_
  obtain ⟨rand',goes⟩ := agrees.2 rand fun j draws => by cases draws
  refine ⟨rand',goes.trans ?_⟩
  rw [ofCells_update]
  simp only [InsertFrame.finish,pc,after]

theorem choose_serves (serves : Serves cfg start a phases table) (apart : Apart tid a)
    (site : a.threads tid = .running call (.choose next)) (choice : Nat) : ∃ phases table,
      Serves cfg start ⟨a.cells,a.locks,a.become tid (.running call (next choice)),a.history⟩
        phases table := by
  obtain ⟨c,follows,agrees⟩ := serves.agrees tid
  rw [site] at follows agrees
  obtain ⟨f,rfl,rfl,counts,⟨pc,rfl⟩ | ⟨n,b,pc,rfl⟩⟩ := follows.choosing
  · let after := f.goto (.swap 0 (if choice % 2 = 0 then f.hash1 else f.hash2))
    have kicks : after.Counts := by
      intro n kick
      cases kick
      decide
    refine insert_serves serves apart after site agrees.1 rfl (.insert after kicks rfl)
      fun rand _ => ?_
    obtain ⟨rand',goes⟩ := agrees.2 (drawn choice rand) fun j draws => by cases draws
    refine ⟨rand',goes.trans ?_⟩
    simp only [InsertFrame.finish,pc,after,InsertFrame.goto,drawn,Nat.sub_zero]
    rfl
  · refine insert_serves serves apart f site agrees.1 rfl
      (.swap f counts pc (Nat.mod_lt _ (by decide)) rfl) fun rand _ => ?_
    exact agrees.2 rand fun j draws => by cases draws

theorem effect_serves (serves : Serves cfg start a phases table) {cells : Slot → Bytes}
    (pending : phases tid = .pending call)
    (accepted : (sequentialFrom cfg start).accepts table call answer (ofCells cfg.tableSize cells))
    (others : ∀ other, other ≠ tid → ∀ c, Follows cfg (a.threads other) c →
      Agrees cfg table (ofCells cfg.tableSize a.cells) (a.threads other) (phases other) c →
      Agrees cfg (ofCells cfg.tableSize cells) (ofCells cfg.tableSize cells) (a.threads other)
        (phases other) c) :
    ∃ phases table, Serves cfg start
      ⟨cells,a.locks,a.become tid (.running call (.done answer)),a.history⟩ phases table :=
  ⟨_,_,serves.move (serves.linearizes.effect pending accepted) rfl (.answered rfl) rfl others
    fun _ => rfl⟩

theorem outcome_done {program : Code Nat}
    (answered : outcome tid (.running call program) = [(tid,call',answer)]) :
    program = .done answer := by
  cases program with
  | done => cases answered; rfl
  | _ => cases answered

theorem Follows.inserts {program : Code Nat} (own : Follows cfg (.running call program) (.insert g)) :
    call = .insert g.key := by
  cases own with
  | insert | swap => rfl

/-- An insertion takes a mutex outside its swaps only. -/
theorem section_pc (counts : g.Counts) {next : Code Nat}
    (begun : .acquire mutex mode next = g.code cfg) :
    (∀ n b, g.pc ≠ .swap n b) ∧ g.pc ≠ .flag := by
  refine ⟨fun n b pc => ?_,fun pc => ?_⟩
  · have less := counts n (by rw [pc]; rfl)
    simp only [InsertFrame.code,pc,kicks_left less] at begun
    cases begun
  · simp only [InsertFrame.code,pc] at begun
    cases begun

theorem insert_whole (serves : Serves cfg start a phases table) (apart : Apart tid a)
    {after : Slot → Bytes} {rest next : Code Nat} (f : InsertFrame) (counts : f.Counts)
    (site : a.threads tid = .running (.insert f.key) (.acquire mutex mode next))
    (begun : .acquire mutex mode next = f.code cfg)
    (agrees : Agrees cfg table (ofCells cfg.tableSize a.cells)
      (.running (.insert f.key) (.acquire mutex mode next)) (phases tid) (.insert f))
    (inside : Locking.Inside next a.cells after (.release mutex rest)) :
    ∃ phases table, Serves cfg start
      ⟨after,a.locks,a.become tid (.running (.insert f.key) rest),a.history⟩ phases table := by
  obtain ⟨pending,goes⟩ := agrees
  obtain ⟨under,drawn⟩ := section_pc counts begun
  have finishes := section_finish cfg (ofCells cfg.tableSize a.cells) under drawn
  obtain ⟨now,follows,answered⟩ := insert_section tid counts begun inside
  generalize insert cfg .split (ofCells cfg.tableSize a.cells) f 0 = out at *
  obtain ⟨slots,g | answer⟩ := out
  · obtain rfl : ofCells cfg.tableSize after = slots := now
    have key : g.key = f.key := (Bag.Op.insert.inj follows.inserts).symm
    refine insert_serves serves apart g site pending key follows fun rand _ => ?_
    obtain ⟨rand',whole⟩ := goes rand fun i draws => by cases draws
    exact ⟨rand',whole.trans (finishes rand)⟩
  · obtain rfl : ofCells cfg.tableSize after = slots := now
    obtain rfl := outcome_done answered
    obtain ⟨rand,whole⟩ := goes (fun _ => 0) fun i draws => by cases draws
    exact effect_serves serves pending ⟨rand,whole.trans (finishes fun _ => 0)⟩
      (apart.others (by rw [site]; trivial) _ _)

theorem Serves.goes (serves : Serves cfg start a phases table) {after : Slot → Bytes}
    {thread : Locking.Thread Call Nat Slot Bytes Bool} {c : Control}
    (kept : ofCells cfg.tableSize after = ofCells cfg.tableSize a.cells)
    (now : ofCells cfg.tableSize a.cells = table) (follows : Follows cfg thread c)
    (agrees : Agrees cfg table table thread (phases tid) c) :
    ∃ phases table, Serves cfg start ⟨after,a.locks,a.become tid thread,a.history⟩
      phases table := by
  refine ⟨phases,table,?_⟩
  have moved : Serves cfg start ⟨after,a.locks,a.become tid thread,a.history⟩
      (Function.update phases tid (phases tid)) table := by
    refine serves.move ?_ serves.size follows ?_ ?_ fun _ => kept.trans now
    · rw [Function.update_eq_self]
      exact serves.linearizes
    · rw [kept,now]
      exact agrees
    · intro other _ c _ agrees
      rw [kept]
      exact agrees
  rwa [Function.update_eq_self] at moved

theorem find_whole (serves : Serves cfg start a phases table) (apart : Apart tid a)
    {after : Slot → Bytes} {rest next : Code Nat} (f : LookFrame)
    (site : a.threads tid = .running (.find f.key) (.acquire mutex mode next))
    (begun : .acquire mutex mode next = f.code lookCode)
    (pending : phases tid = .pending (.find f.key)) (looks : f.Looks cfg table)
    (inside : Locking.Inside next a.cells after (.release mutex rest)) :
    ∃ phases table, Serves cfg start
      ⟨after,a.locks,a.become tid (.running (.find f.key) rest),a.history⟩ phases table := by
  have quiet : ofCells cfg.tableSize a.cells = table := by
    apply serves.quiet apart
    rw [site]
    exact id
  have looked := find_looks serves.size looks
  obtain ⟨now,follows,answered⟩ := find_section tid begun inside
  rw [quiet] at now follows answered
  generalize find table f = out at *
  obtain ⟨slots,g | answer⟩ := out
  · obtain ⟨rfl,key,looks⟩ := looked
    refine serves.goes (now.trans quiet.symm) quiet follows ⟨?_,looks⟩
    rw [key]
    exact pending
  · obtain ⟨rfl,answers⟩ := looked
    obtain rfl := outcome_done answered
    refine effect_serves serves pending ⟨answers,now⟩ fun other _ c _ agrees => ?_
    rw [quiet] at agrees
    rw [show ofCells cfg.tableSize after = slots from now]
    exact agrees

theorem remove_whole (serves : Serves cfg start a phases table) (apart : Apart tid a)
    {after : Slot → Bytes} {rest next : Code Nat} (f : LookFrame)
    (site : a.threads tid = .running (.remove f.key) (.acquire mutex mode next))
    (begun : .acquire mutex mode next = f.code clearCode)
    (pending : phases tid = .pending (.remove f.key)) (looks : f.Looks cfg table)
    (inside : Locking.Inside next a.cells after (.release mutex rest)) :
    ∃ phases table, Serves cfg start
      ⟨after,a.locks,a.become tid (.running (.remove f.key) rest),a.history⟩ phases table := by
  have quiet : ofCells cfg.tableSize a.cells = table := by
    apply serves.quiet apart
    rw [site]
    exact id
  have looked := remove_looks serves.size looks
  obtain ⟨now,follows,answered⟩ := remove_section tid begun inside
  rw [quiet] at now follows answered
  generalize remove table f = out at *
  obtain ⟨slots,g | answer⟩ := out
  · obtain ⟨rfl,key,looks⟩ := looked
    refine serves.goes (now.trans quiet.symm) quiet follows ⟨?_,looks⟩
    rw [key]
    exact pending
  · obtain ⟨removed,cleared⟩ := looked
    obtain rfl : ofCells cfg.tableSize after = slots := now
    obtain rfl := outcome_done answered
    refine effect_serves serves pending removed fun other away c follows agrees => ?_
    rcases cleared with same | ⟨b,i,wrote⟩
    · rw [same]
      rwa [quiet] at agrees
    · rw [wrote]
      exact agrees.cleared follows (apart other away).1 b i _

theorem serves_step {b : Threads} (serves : Serves cfg start a phases table) (apart : Apart tid a)
    (stepped : Locking.AtomicStep (code cfg) a tid b) :
    ∃ phases table, Serves cfg start b phases table := by
  cases stepped with
  | invoke idle call => exact invoke_serves serves apart idle call
  | done site => exact done_serves serves site
  | read site => exact read_serves serves apart site
  | write site => exact write_serves serves apart site
  | choose site choice => exact choose_serves serves apart site choice
  | whole site inside =>
    obtain ⟨c,follows,agrees⟩ := serves.agrees tid
    rw [site] at follows agrees
    cases follows with
    | answered ended => cases ended
    | insert f counts begun => exact insert_whole serves apart f counts site begun agrees inside
    | swap f counts pc slot begun => cases begun
    | find f begun => exact find_whole serves apart f site begun agrees.1 agrees.2 inside
    | remove f begun => exact remove_whole serves apart f site begun agrees.1 agrees.2 inside

theorem run_serves {cells : Slot → Bytes}
    (run : Locking.AtomicRun (code cfg) Apart (.initial cells) a) :
    ∃ phases table, Serves cfg (ofCells cfg.tableSize cells) a phases table := by
  refine Transition.run_invariant
    (fun a => ∃ phases table, Serves cfg (ofCells cfg.tableSize cells) a phases table) ?_
    ⟨_,_,serves_initial cfg cells⟩ run
  rintro a b ⟨phases,table,serves⟩ ⟨tid,apart,stepped⟩
  exact serves_step serves apart stepped

theorem related_inserting (sound : Locking.Sound slotMutex (Swaps cfg) s)
    (related : Locking.Related slotMutex (Swaps cfg) s a) (tid : Nat) :
    (Inserting (a.threads tid) ↔ Inserting (s.threads tid)) ∧
      (s.threads tid = .idle → a.threads tid = .idle) := by
  obtain ⟨held,holds,-⟩ := sound.thread tid
  cases held with
  | none =>
    rw [related.free tid holds]
    exact ⟨.rfl,id⟩
  | some held =>
    have member : (tid,held.2) ∈ s.locks held.1 := (holds held.1 held.2).mpr rfl
    obtain ⟨call,begun,program,site,site',-⟩ := related.held tid held.1 held.2 member
    rw [site,site']
    refine ⟨?_,fun idle => by cases idle⟩
    cases call <;> exact .rfl

theorem Apart.related (sound : Locking.Sound slotMutex (Swaps cfg) s)
    (related : Locking.Related slotMutex (Swaps cfg) s a) (apart : Apart tid s) : Apart tid a := by
  intro other away
  obtain ⟨quiet,alone⟩ := apart other away
  have same := related_inserting sound related other
  refine ⟨same.1.not.mpr quiet,fun inside => same.2 (alone ?_)⟩
  exact (related_inserting sound related tid).1.mp inside

/-- The swap of an insertion with nobody beside it meets no section. -/
theorem Apart.race_free (sound : Locking.Sound slotMutex (Swaps cfg) s) (apart : Apart tid s) :
    Locking.RaceFree slotMutex tid s := by
  refine sound.race_free fun ⟨_,call,program,site,swaps⟩ other away => (apart other away).2 ?_
  rw [site]
  cases call with
  | insert key => trivial
  | find key | remove key => exact swaps.elim

/-- While no insertion is overlapped by another call the filter is the sequential one,
whatever the capacity and whatever is in the slots at first. Between insertions, with no mutex
held, its slots are the other one's. -/
theorem apart_linearizable {cells : Slot → Bytes}
    (run : Locking.Run (code cfg) Apart (.initial cells) s) :
    ∃ phases table, Linearization.Linearizes (sequentialFrom cfg (ofCells cfg.tableSize cells))
        s.history phases table ∧
      ((∀ mutex, s.locks mutex = []) → (∀ tid, ¬Inserting (s.threads tid)) →
        ofCells cfg.tableSize s.cells = table) ∧
      ∀ tid, s.threads tid = .idle → phases tid = .idle := by
  have sections : ∃ a, Locking.AtomicRun (code cfg) Apart (.initial cells) a ∧
      Locking.Related slotMutex (Swaps cfg) s a :=
    Locking.run_related code_disciplined (fun _ _ sound apart => apart.race_free sound)
      (fun _ _ _ sound related apart _ => apart.related sound related) run
  obtain ⟨a,whole,related⟩ := sections
  obtain ⟨phases,table,serves⟩ := run_serves whole
  have sound : Locking.Sound slotMutex (Swaps cfg) s := Locking.run_sound code_disciplined run
  refine ⟨phases,table,related.history ▸ serves.linearizes,fun free quiet => ?_,fun tid idle => ?_⟩
  · have kept : a.cells = s.cells := by
      funext slot
      refine related.cells slot fun holder member => ?_
      rw [free] at member
      cases member
    rw [← kept]
    refine serves.same fun tid key pending => ?_
    obtain ⟨c,follows,agrees⟩ := serves.agrees tid
    have inside := agrees.inserting follows pending
    exact quiet tid ((related_inserting sound related tid).1.mp inside)
  · obtain ⟨c,follows,agrees⟩ := serves.agrees tid
    rw [(related_inserting sound related tid).2 idle] at follows agrees
    cases follows
    exact agrees

instance : DecidablePred Inserting
  | .running (.insert _) _ => .isTrue trivial
  | .running (.find _) _ | .running (.remove _) _ | .idle => .isFalse id

/-- `Apart` for threads below `n`. -/
def ApartBelow (n tid : Nat) (s : Threads) : Prop :=
  tid < n ∧ ∀ other < n, other ≠ tid → ¬Inserting (s.threads other) ∧
    (Inserting (s.threads tid) → (s.threads other).program?.isNone = true)

instance (n tid : Nat) (s : Threads) : Decidable (ApartBelow n tid s) :=
  inferInstanceAs (Decidable (tid < n ∧ ∀ other < n, other ≠ tid → _ ∧ _))

theorem apart_below {cells : Slot → Bytes}
    (run : Locking.Run (code cfg) (ApartBelow n) (.initial cells) s) :
    Locking.Run (code cfg) Apart (.initial cells) s ∧ ∀ tid, n ≤ tid → s.threads tid = .idle := by
  refine Transition.run_invariant (fun s => Locking.Run (code cfg) Apart (.initial cells) s ∧
    ∀ tid, n ≤ tid → s.threads tid = .idle) ?_ ⟨.refl,fun _ _ => rfl⟩ run
  rintro s t ⟨past,rest⟩ ⟨tid,action,⟨below,apart⟩,moved⟩
  refine ⟨.tail past ⟨tid,action,fun other away => ?_,moved⟩,fun other beyond => ?_⟩
  · by_cases few : other < n
    · refine ⟨(apart other few away).1,fun inside => ?_⟩
      have none := (apart other few away).2 inside
      cases here : s.threads other with
      | idle => rfl
      | running call program =>
        rw [here] at none
        cases none
    · rw [rest other (Nat.le_of_not_lt few)]
      exact ⟨id,fun _ => rfl⟩
  · rw [Locking.step_other moved (by omega)]
    exact rest other beyond

/-- Thread 1 kicks an `a` out of bucket 0 and then searches for `f` beside a removal of `a`. -/
def apartSchedule : List (Nat × Locking.Action Call) :=
  calls 0 (.insert keyA) 5 ++ calls 0 (.insert keyA) 6 ++ calls 0 (.insert keyA) 7 ++
    calls 0 (.insert keyA) 8 ++ calls 1 (.insert keyF) 21 ++ calls 1 (.find keyF) 2 ++
    calls 2 (.remove keyA) 0 ++ Locking.runs 1 2 ++ Locking.runs 2 6

def apartState : Threads :=
  Locking.endState (code sampleConfig) (ApartBelow 3) (fun _ => []) apartSchedule

theorem apart_run : Locking.Run (code sampleConfig) Apart (.initial fun _ => []) apartState :=
  have run : Locking.Run (code sampleConfig) (ApartBelow 3) (.initial fun _ => []) apartState :=
    Locking.endState_run apartSchedule (by decide +kernel)
  (apart_below run).1

theorem apart_served : responses apartState.history = [(2,.remove keyA,true),(1,.find keyF,true),
      (1,.insert keyF,true),(0,.insert keyA,true),(0,.insert keyA,true),(0,.insert keyA,true),
      (0,.insert keyA,true)] ∧
    ∃ phases table, Linearization.Linearizes
        (sequentialFrom sampleConfig (ofCells sampleConfig.tableSize fun _ => []))
        apartState.history phases table ∧
      ((∀ mutex, apartState.locks mutex = []) → (∀ tid, ¬Inserting (apartState.threads tid)) →
        ofCells sampleConfig.tableSize apartState.cells = table) ∧
      ∀ tid, apartState.threads tid = .idle → phases tid = .idle :=
  ⟨by decide +kernel,apart_linearizable apart_run⟩

end CuckooFilter.FineGrained
