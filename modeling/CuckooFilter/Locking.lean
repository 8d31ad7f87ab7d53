import CuckooFilter.Bag
import CuckooFilter.Linearization
import CuckooFilter.Transition
import Mathlib.Logic.Hydra

/-! Threads that share cells and mutexes. A program is a tree of accesses to single cells,
of choices and of mutex operations; a mutex has one exclusive holder or any number of shared
ones. Each node is one step of its thread. -/
namespace Locking

inductive Mode where
  | shared
  | exclusive
  deriving DecidableEq, Repr

inductive Program (Mutex Cell Value Answer : Type) where
  | done (answer : Answer)
  | read (cell : Cell) (next : Value → Program Mutex Cell Value Answer)
  | write (cell : Cell) (value : Value) (next : Program Mutex Cell Value Answer)
  | choose (next : Nat → Program Mutex Cell Value Answer)
  | acquire (mutex : Mutex) (mode : Mode) (next : Program Mutex Cell Value Answer)
  | release (mutex : Mutex) (next : Program Mutex Cell Value Answer)

inductive Thread (Call Mutex Cell Value Answer : Type) where
  | idle
  | running (call : Call) (program : Program Mutex Cell Value Answer)

/-- `locks` gives the holders of a mutex; `history` is read by no step. -/
structure System (Call Mutex Cell Value Answer : Type) where
  cells : Cell → Value
  locks : Mutex → List (Nat × Mode)
  threads : Nat → Thread Call Mutex Cell Value Answer
  history : List (Linearization.Event Call Answer)

/-- A call, or a step inside one with what a choice in it comes to. -/
inductive Action (Call : Type) where
  | invoke (call : Call)
  | run (choice : Nat)

variable {Call Mutex Cell Value Answer : Type}

def System.initial (cells : Cell → Value) : System Call Mutex Cell Value Answer :=
  ⟨cells,fun _ => [],fun _ => .idle,[]⟩

def grants (holders : List (Nat × Mode)) : Mode → Bool
  | .shared => holders.all fun holder => holder.2 = .shared
  | .exclusive => holders.isEmpty

def System.become (s : System Call Mutex Cell Value Answer) (tid : Nat)
    (thread : Thread Call Mutex Cell Value Answer) : Nat → Thread Call Mutex Cell Value Answer :=
  Function.update s.threads tid thread

variable [DecidableEq Mutex] [DecidableEq Cell]

def advance (s : System Call Mutex Cell Value Answer) (tid choice : Nat) (call : Call) :
    Program Mutex Cell Value Answer → Option (System Call Mutex Cell Value Answer)
  | .done answer =>
    some ⟨s.cells,s.locks,s.become tid .idle,.respond tid call answer :: s.history⟩
  | .read cell next =>
    some ⟨s.cells,s.locks,s.become tid (.running call (next (s.cells cell))),s.history⟩
  | .write cell value next =>
    some ⟨Function.update s.cells cell value,s.locks,s.become tid (.running call next),s.history⟩
  | .choose next => some ⟨s.cells,s.locks,s.become tid (.running call (next choice)),s.history⟩
  | .acquire mutex mode next =>
    if grants (s.locks mutex) mode then
      some ⟨s.cells,Function.update s.locks mutex ((tid,mode) :: s.locks mutex),
        s.become tid (.running call next),s.history⟩
    else none
  | .release mutex next =>
    some ⟨s.cells,Function.update s.locks mutex ((s.locks mutex).filter (·.1 ≠ tid)),
      s.become tid (.running call next),s.history⟩

variable (body : Call → Program Mutex Cell Value Answer)

def step (s : System Call Mutex Cell Value Answer) (tid : Nat) :
    Action Call → Option (System Call Mutex Cell Value Answer)
  | .invoke call =>
    match s.threads tid with
    | .idle => some ⟨s.cells,s.locks,s.become tid (.running call (body call)),
        .invoke tid call :: s.history⟩
    | .running _ _ => none
  | .run choice =>
    match s.threads tid with
    | .idle => none
    | .running call program => advance s tid choice call program

/-- A run in which every step meets a condition on its thread and the state before it. -/
def Run (condition : Nat → System Call Mutex Cell Value Answer → Prop) :
    System Call Mutex Cell Value Answer → System Call Mutex Cell Value Answer → Prop :=
  Relation.ReflTransGen fun s t => ∃ tid action, condition tid s ∧ step body s tid action = some t

/-- Any interleaving from some cells. -/
def Reachable (cells : Cell → Value) (s : System Call Mutex Cell Value Answer) : Prop :=
  Run body (fun _ _ => True) (.initial cells) s

variable {body} {s t : System Call Mutex Cell Value Answer} {tid : Nat}
variable {program : Program Mutex Cell Value Answer}

/-- A step by what its thread was doing. -/
inductive Moved (body : Call → Program Mutex Cell Value Answer)
    (s : System Call Mutex Cell Value Answer) (tid : Nat) :
    Action Call → System Call Mutex Cell Value Answer → Prop where
  | invoke (idle : s.threads tid = .idle) (call : Call) :
      Moved body s tid (.invoke call) ⟨s.cells,s.locks,s.become tid (.running call (body call)),
        .invoke tid call :: s.history⟩
  | done (site : s.threads tid = .running call (.done answer)) (choice : Nat) :
      Moved body s tid (.run choice)
        ⟨s.cells,s.locks,s.become tid .idle,.respond tid call answer :: s.history⟩
  | read (site : s.threads tid = .running call (.read cell next)) (choice : Nat) :
      Moved body s tid (.run choice)
        ⟨s.cells,s.locks,s.become tid (.running call (next (s.cells cell))),s.history⟩
  | write (site : s.threads tid = .running call (.write cell value next)) (choice : Nat) :
      Moved body s tid (.run choice) ⟨Function.update s.cells cell value,s.locks,
        s.become tid (.running call next),s.history⟩
  | choose (site : s.threads tid = .running call (.choose next)) (choice : Nat) :
      Moved body s tid (.run choice)
        ⟨s.cells,s.locks,s.become tid (.running call (next choice)),s.history⟩
  | acquire (site : s.threads tid = .running call (.acquire mutex mode next)) (choice : Nat)
      (granted : grants (s.locks mutex) mode = true) :
      Moved body s tid (.run choice)
        ⟨s.cells,Function.update s.locks mutex ((tid,mode) :: s.locks mutex),
          s.become tid (.running call next),s.history⟩
  | release (site : s.threads tid = .running call (.release mutex next)) (choice : Nat) :
      Moved body s tid (.run choice)
        ⟨s.cells,Function.update s.locks mutex ((s.locks mutex).filter (·.1 ≠ tid)),
          s.become tid (.running call next),s.history⟩

theorem step_moved (moved : step body s tid action = some t) : Moved body s tid action t := by
  cases action with
  | invoke call =>
    simp only [step] at moved
    split at moved
    · rename_i idle
      cases moved
      exact .invoke idle call
    · cases moved
  | run choice =>
    simp only [step] at moved
    split at moved
    · cases moved
    · rename_i call program site
      cases program with
      | done answer =>
        cases moved
        exact .done site choice
      | read cell next =>
        cases moved
        exact .read site choice
      | write cell value next =>
        cases moved
        exact .write site choice
      | choose next =>
        cases moved
        exact .choose site choice
      | acquire mutex mode next =>
        simp only [advance] at moved
        split at moved
        · rename_i granted
          cases moved
          exact .acquire site choice granted
        · cases moved
      | release mutex next =>
        cases moved
        exact .release site choice

omit [DecidableEq Mutex] [DecidableEq Cell] in
@[simp] theorem become_own (s : System Call Mutex Cell Value Answer) (tid : Nat)
    (thread : Thread Call Mutex Cell Value Answer) : s.become tid thread tid = thread := by
  simp [System.become]

omit [DecidableEq Mutex] [DecidableEq Cell] in
@[simp] theorem become_other (s : System Call Mutex Cell Value Answer)
    (thread : Thread Call Mutex Cell Value Answer) (away : other ≠ tid) :
    s.become tid thread other = s.threads other := by
  simp [System.become,away]

theorem step_other (moved : step body s tid action = some t) (away : other ≠ tid) :
    t.threads other = s.threads other := by
  cases step_moved moved <;> exact become_other s _ away

/-- Every cell has its mutex. A program that holds `held` accesses cells under their mutex
only, or under none where `bare` says so; it holds one mutex at a time and none at its end. -/
def Disciplined (guard : Cell → Mutex) (bare : Program Mutex Cell Value Answer → Prop) :
    Option (Mutex × Mode) → Program Mutex Cell Value Answer → Prop
  | held,.done _ => held = none
  | held,.read cell next =>
    (held = none ∧ bare (.read cell next) ∨ ∃ mode, held = some (guard cell,mode)) ∧
      ∀ value, Disciplined guard bare held (next value)
  | held,.write cell value next =>
    (held = none ∧ bare (.write cell value next) ∨ held = some (guard cell,.exclusive)) ∧
      Disciplined guard bare held next
  | held,.choose next => ∀ choice, Disciplined guard bare held (next choice)
  | held,.acquire mutex mode next => held = none ∧ Disciplined guard bare (some (mutex,mode)) next
  | held,.release mutex next => (∃ mode, held = some (mutex,mode)) ∧
      Disciplined guard bare none next

def Thread.Disciplined (guard : Cell → Mutex)
    (bare : Call → Program Mutex Cell Value Answer → Prop) (held : Option (Mutex × Mode)) :
    Thread Call Mutex Cell Value Answer → Prop
  | .idle => held = none
  | .running call program => Locking.Disciplined guard (bare call) held program

def System.Holds (s : System Call Mutex Cell Value Answer) (tid : Nat)
    (held : Option (Mutex × Mode)) : Prop :=
  ∀ mutex mode, (tid,mode) ∈ s.locks mutex ↔ held = some (mutex,mode)

/-- The threads go by what they hold, and an exclusive holder is alone. -/
structure Sound (guard : Cell → Mutex) (bare : Call → Program Mutex Cell Value Answer → Prop)
    (s : System Call Mutex Cell Value Answer) : Prop where
  thread : ∀ tid, ∃ held, s.Holds tid held ∧ (s.threads tid).Disciplined guard bare held
  alone : ∀ mutex, ∀ holder ∈ s.locks mutex, holder.2 = .exclusive → s.locks mutex = [holder]
  bounded : ∃ n, ∀ tid, n ≤ tid → s.threads tid = .idle

variable {guard : Cell → Mutex} {bare : Call → Program Mutex Cell Value Answer → Prop}

omit [DecidableEq Mutex] [DecidableEq Cell] in
theorem sound_initial (cells : Cell → Value) :
    Sound guard bare (System.initial cells : System Call Mutex Cell Value Answer) := by
  refine ⟨fun tid => ⟨none,?_,rfl⟩,?_,0,fun _ _ => rfl⟩
  · intro mutex mode
    simp [System.initial]
  · intro mutex holder member
    simp [System.initial] at member

omit [DecidableEq Mutex] [DecidableEq Cell] in
theorem Sound.running (sound : Sound guard bare s) (site : s.threads tid = .running call program) :
    ∃ held, s.Holds tid held ∧ Disciplined guard (bare call) held program := by
  obtain ⟨held,holds,disciplined⟩ := sound.thread tid
  rw [site] at disciplined
  exact ⟨held,holds,disciplined⟩

theorem grants_shared (granted : grants holders mode = true) (member : holder ∈ holders) :
    holder.2 = .shared ∧ mode = .shared := by
  cases mode with
  | shared => simpa [grants] using List.all_eq_true.mp granted holder member
  | exclusive =>
    rw [List.isEmpty_iff.mp granted] at member
    cases member

omit [DecidableEq Mutex] [DecidableEq Cell] in
theorem Sound.same (sound : Sound guard bare s) (locks : t.locks = s.locks)
    (others : ∀ other, other ≠ tid → t.threads other = s.threads other)
    (own : ∀ held, s.Holds tid held → (s.threads tid).Disciplined guard bare held →
      (t.threads tid).Disciplined guard bare held) :
    Sound guard bare t := by
  refine ⟨fun mover => ?_,?_,?_⟩
  · obtain ⟨held,holds,disciplined⟩ := sound.thread mover
    refine ⟨held,fun mutex mode => by rw [locks]; exact holds mutex mode,?_⟩
    by_cases same : mover = tid
    · subst mover
      exact own held holds disciplined
    · rw [others mover same]
      exact disciplined
  · rw [locks]
    exact sound.alone
  · obtain ⟨n,rest⟩ := sound.bounded
    refine ⟨max n (tid + 1),fun mover beyond => ?_⟩
    rw [others mover (by omega)]
    exact rest mover (by omega)

omit [DecidableEq Cell] in
theorem acquire_sound (sound : Sound guard bare s)
    (site : s.threads tid = .running call (.acquire mutex mode next))
    (granted : grants (s.locks mutex) mode = true)
    (locks : t.locks = Function.update s.locks mutex ((tid,mode) :: s.locks mutex))
    (own : t.threads tid = .running call next)
    (others : ∀ other, other ≠ tid → t.threads other = s.threads other) :
    Sound guard bare t := by
  obtain ⟨held,holds,rfl,disciplined⟩ := sound.running site
  have free (other : Mutex) (mode : Mode) : (tid,mode) ∉ s.locks other := by
    rw [holds other mode]
    simp
  refine ⟨fun mover => ?_,?_,?_⟩
  · by_cases same : mover = tid
    · subst mover
      refine ⟨some (mutex,mode),fun other mode' => ?_,?_⟩
      · rw [locks]
        by_cases here : other = mutex
        · subst other
          simp [free,eq_comm]
        · simp [here,free,Ne.symm here]
      · rw [own]
        exact disciplined
    · obtain ⟨held,holds',disciplined'⟩ := sound.thread mover
      refine ⟨held,fun other mode' => ?_,?_⟩
      · rw [← holds' other mode',locks]
        by_cases here : other = mutex
        · subst other
          simp [same]
        · simp [here]
      · rw [others mover same]
        exact disciplined'
  · intro other holder member alone
    rw [locks] at member ⊢
    by_cases here : other = mutex
    · subst other
      simp only [Function.update_self] at member ⊢
      rcases List.mem_cons.mp member with rfl | old
      · cases alone
        rw [List.isEmpty_iff.mp granted]
      · rw [(grants_shared granted old).1] at alone
        cases alone
    · simp only [Function.update_of_ne here] at member ⊢
      exact sound.alone other holder member alone
  · obtain ⟨n,rest⟩ := sound.bounded
    refine ⟨max n (tid + 1),fun mover beyond => ?_⟩
    rw [others mover (by omega)]
    exact rest mover (by omega)

omit [DecidableEq Cell] in
theorem release_sound (sound : Sound guard bare s)
    (site : s.threads tid = .running call (.release mutex next))
    (locks : t.locks = Function.update s.locks mutex ((s.locks mutex).filter (·.1 ≠ tid)))
    (own : t.threads tid = .running call next)
    (others : ∀ other, other ≠ tid → t.threads other = s.threads other) :
    Sound guard bare t := by
  obtain ⟨held,holds,⟨mode,rfl⟩,disciplined⟩ := sound.running site
  refine ⟨fun mover => ?_,?_,?_⟩
  · by_cases same : mover = tid
    · subst mover
      refine ⟨none,fun other mode' => ?_,?_⟩
      · rw [locks]
        by_cases here : other = mutex
        · subst other
          simp
        · simp [here,holds other mode',Ne.symm here]
      · rw [own]
        exact disciplined
    · obtain ⟨held,holds',disciplined'⟩ := sound.thread mover
      refine ⟨held,fun other mode' => ?_,?_⟩
      · rw [← holds' other mode',locks]
        by_cases here : other = mutex
        · subst other
          simp [same]
        · simp [here]
      · rw [others mover same]
        exact disciplined'
  · intro other holder member alone
    rw [locks] at member ⊢
    by_cases here : other = mutex
    · subst other
      simp only [Function.update_self] at member ⊢
      obtain ⟨old,stays⟩ := List.mem_filter.mp member
      rw [sound.alone mutex holder old alone]
      simpa using stays
    · simp only [Function.update_of_ne here] at member ⊢
      exact sound.alone other holder member alone
  · obtain ⟨n,rest⟩ := sound.bounded
    refine ⟨max n (tid + 1),fun mover beyond => ?_⟩
    rw [others mover (by omega)]
    exact rest mover (by omega)

theorem sound_step (bodies : ∀ call, Disciplined guard (bare call) none (body call))
    (sound : Sound guard bare s) (moved : step body s tid action = some t) :
    Sound guard bare t := by
  have others (other : Nat) (away : other ≠ tid) := step_other moved away
  cases step_moved moved with
  | invoke idle call =>
    refine sound.same rfl others fun held _ disciplined => ?_
    rw [idle] at disciplined
    cases disciplined
    simp only [become_own]
    exact bodies call
  | done site choice =>
    refine sound.same rfl others fun held _ disciplined => ?_
    rw [site] at disciplined
    simp only [become_own]
    exact disciplined
  | read site choice =>
    refine sound.same rfl others fun held _ disciplined => ?_
    rw [site] at disciplined
    simp only [become_own]
    exact disciplined.2 _
  | write site choice =>
    refine sound.same rfl others fun held _ disciplined => ?_
    rw [site] at disciplined
    simp only [become_own]
    exact disciplined.2
  | choose site choice =>
    refine sound.same rfl others fun held _ disciplined => ?_
    rw [site] at disciplined
    simp only [become_own]
    exact disciplined choice
  | acquire site choice granted => exact acquire_sound sound site granted rfl (become_own s tid _) others
  | release site choice => exact release_sound sound site rfl (become_own s tid _) others

theorem run_sound (bodies : ∀ call, Disciplined guard (bare call) none (body call))
    {condition : Nat → System Call Mutex Cell Value Answer → Prop}
    (run : Run body condition (.initial cells) s) : Sound guard bare s := by
  refine Transition.run_invariant (Sound guard bare) ?_ (sound_initial cells) run
  rintro s t sound ⟨tid,action,-,moved⟩
  exact sound_step bodies sound moved

/-- The cell a thread accesses next, and whether it writes. -/
def Thread.access? : Thread Call Mutex Cell Value Answer → Option (Cell × Bool)
  | .running _ (.read cell _) => some (cell,false)
  | .running _ (.write cell _ _) => some (cell,true)
  | _ => none

/-- The thread holds nothing, at an access that may be made so. -/
def System.Bare (bare : Call → Program Mutex Cell Value Answer → Prop)
    (s : System Call Mutex Cell Value Answer) (tid : Nat) : Prop :=
  s.Holds tid none ∧ ∃ call program, s.threads tid = .running call program ∧ bare call program

omit [DecidableEq Mutex] [DecidableEq Cell] in
theorem access_guarded (sound : Sound guard bare s)
    (accesses : (s.threads tid).access? = some (cell,writes)) :
    s.Bare bare tid ∨ ∃ mode, (tid,mode) ∈ s.locks (guard cell) ∧
      (writes = true → mode = .exclusive) := by
  cases site : s.threads tid with
  | idle =>
    rw [site] at accesses
    cases accesses
  | running call program =>
    rw [site] at accesses
    obtain ⟨held,holds,disciplined⟩ := sound.running site
    cases program with
    | read other next =>
      cases accesses
      rcases disciplined.1 with ⟨rfl,exposed⟩ | ⟨mode,rfl⟩
      · exact .inl ⟨holds,call,_,site,exposed⟩
      · exact .inr ⟨mode,(holds _ _).mpr rfl,by simp⟩
    | write other value next =>
      cases accesses
      rcases disciplined.1 with ⟨rfl,exposed⟩ | rfl
      · exact .inl ⟨holds,call,_,site,exposed⟩
      · exact .inr ⟨.exclusive,(holds _ _).mpr rfl,fun _ => rfl⟩
    | done answer => cases accesses
    | choose next => cases accesses
    | acquire mutex mode next => cases accesses
    | release mutex next => cases accesses

omit [DecidableEq Mutex] [DecidableEq Cell] in
/-- Whoever holds a mutex beside an exclusive holder is that holder. -/
theorem Sound.excludes (sound : Sound guard bare s) (first : (tid,.exclusive) ∈ s.locks mutex)
    (second : (other,mode) ∈ s.locks mutex) : other = tid := by
  rw [sound.alone mutex _ first rfl,List.mem_singleton] at second
  exact congrArg Prod.fst second

omit [DecidableEq Mutex] [DecidableEq Cell] in
/-- Of two threads about to access one cell, one of them to write it, one is bare. -/
theorem race_bare (sound : Sound guard bare s) (apart : tid ≠ other)
    (first : (s.threads tid).access? = some (cell,writes))
    (second : (s.threads other).access? = some (cell,writes'))
    (conflict : writes = true ∨ writes' = true) : s.Bare bare tid ∨ s.Bare bare other := by
  rcases access_guarded sound first with exposed | ⟨mode,holds,strong⟩
  · exact .inl exposed
  · rcases access_guarded sound second with exposed | ⟨mode',holds',strong'⟩
    · exact .inr exposed
    · rcases conflict with write | write
      · cases strong write
        exact absurd (sound.excludes holds holds').symm apart
      · cases strong' write
        exact absurd (sound.excludes holds' holds) apart

omit [DecidableEq Mutex] [DecidableEq Cell] in
theorem Sound.idle_free (sound : Sound guard bare s) (idle : s.threads tid = .idle) :
    s.Holds tid none := by
  obtain ⟨held,holds,disciplined⟩ := sound.thread tid
  rw [idle] at disciplined
  cases disciplined
  exact holds

omit [DecidableEq Mutex] [DecidableEq Cell] in
theorem Sound.unlocked (sound : Sound guard bare s) (idle : ∀ tid, s.threads tid = .idle)
    (mutex : Mutex) : s.locks mutex = [] := by
  refine List.eq_nil_iff_forall_not_mem.mpr fun ⟨tid,mode⟩ member => ?_
  cases (sound.idle_free (idle tid) mutex mode).mp member

variable (body) in
theorem holder_moves (sound : Sound guard bare s) (holds : (tid,mode) ∈ s.locks mutex) :
    ∃ t, step body s tid (.run 0) = some t := by
  obtain ⟨held,holding,disciplined⟩ := sound.thread tid
  obtain rfl := (holding mutex mode).mp holds
  cases site : s.threads tid with
  | idle =>
    rw [site] at disciplined
    cases disciplined
  | running call program =>
    rw [site] at disciplined
    simp only [step,site]
    cases program with
    | done answer => cases disciplined
    | acquire mutex mode next => cases disciplined.1
    | read cell next => exact ⟨_,rfl⟩
    | write cell value next => exact ⟨_,rfl⟩
    | choose next => exact ⟨_,rfl⟩
    | release mutex next => exact ⟨_,rfl⟩

variable (body) in
/-- A thread inside a call moves, or waits for one that does. -/
theorem progress (sound : Sound guard bare s) (busy : s.threads tid ≠ .idle) :
    ∃ mover t, step body s mover (.run 0) = some t := by
  cases site : s.threads tid with
  | idle => exact absurd site busy
  | running call program =>
    cases program with
    | acquire mutex mode next =>
      by_cases granted : grants (s.locks mutex) mode = true
      · exact ⟨tid,_,by simp only [step,site,advance,granted,if_true]; rfl⟩
      · obtain ⟨⟨holder,mode'⟩,member⟩ : ∃ holder, holder ∈ s.locks mutex := by
          refine List.exists_mem_of_ne_nil _ fun free => granted ?_
          rw [free]
          cases mode <;> rfl
        obtain ⟨t,moved⟩ := holder_moves body sound member
        exact ⟨holder,t,moved⟩
    | done answer => exact ⟨tid,_,by simp only [step,site]; rfl⟩
    | read cell next => exact ⟨tid,_,by simp only [step,site]; rfl⟩
    | write cell value next => exact ⟨tid,_,by simp only [step,site]; rfl⟩
    | choose next => exact ⟨tid,_,by simp only [step,site]; rfl⟩
    | release mutex next => exact ⟨tid,_,by simp only [step,site]; rfl⟩

/-- The programs that a step can leave of one. -/
inductive Next : Program Mutex Cell Value Answer → Program Mutex Cell Value Answer → Prop where
  | read (value : Value) : Next (next value) (.read cell next)
  | write : Next next (.write cell value next)
  | choose (choice : Nat) : Next (next choice) (.choose next)
  | acquire : Next next (.acquire mutex mode next)
  | release : Next next (.release mutex next)

omit [DecidableEq Mutex] [DecidableEq Cell] in
theorem next_wellFounded : WellFounded
    (Next : Program Mutex Cell Value Answer → Program Mutex Cell Value Answer → Prop) := by
  refine ⟨fun program => ?_⟩
  induction program with
  | done answer => exact ⟨_,fun _ below => by cases below⟩
  | read cell next ih => exact ⟨_,fun _ below => by cases below; exact ih _⟩
  | write cell value next ih => exact ⟨_,fun _ below => by cases below; exact ih⟩
  | choose next ih => exact ⟨_,fun _ below => by cases below; exact ih _⟩
  | acquire mutex mode next ih => exact ⟨_,fun _ below => by cases below; exact ih⟩
  | release mutex next ih => exact ⟨_,fun _ below => by cases below; exact ih⟩

def Thread.program? : Thread Call Mutex Cell Value Answer → Option (Program Mutex Cell Value Answer)
  | .idle => none
  | .running _ program => some program

/-- What the first `n` threads have left to do. -/
def System.programs (s : System Call Mutex Cell Value Answer) (n : Nat) :
    Multiset (Program Mutex Cell Value Answer) :=
  Bag.contents (Finset.range n) fun tid => (s.threads tid).program?

theorem step_program (moved : step body s tid (.run choice) = some t) :
    ∃ program, (s.threads tid).program? = some program ∧
      ∀ rest, (t.threads tid).program? = some rest → Next rest program := by
  cases step_moved moved with
  | done site | read site | write site | choose site | acquire site | release site =>
    refine ⟨_,by rw [site]; rfl,fun rest left => ?_⟩
    simp only [become_own] at left
    cases left
    try constructor

theorem programs_step (inside : tid < n) (moved : step body s tid (.run choice) = some t) :
    Relation.CutExpand Next (t.programs n) (s.programs n) := by
  obtain ⟨program,before,smaller⟩ := step_program moved
  have exchange : t.programs n + (((s.threads tid).program?).toList : Multiset _) =
      s.programs n + (((t.threads tid).program?).toList : Multiset _) :=
    Bag.contents_exchange (f := fun tid => (s.threads tid).program?) (Finset.mem_range.mpr inside)
      fun other _ away => by rw [step_other moved away]
  rw [before] at exchange
  refine ⟨_,program,?_,exchange⟩
  intro rest member
  apply smaller rest
  simpa using member

variable (body) in
/-- Whatever the scheduler and the choices do, the calls in progress come to their ends as
long as no new ones are made. -/
theorem completes (bodies : ∀ call, Disciplined guard (bare call) none (body call))
    (sound : Sound guard bare s) :
    Transition.Inevitable (fun s t => ∃ tid choice, step body s tid (.run choice) = some t)
      (fun s => ∀ tid, s.threads tid = .idle) s := by
  obtain ⟨n,rest⟩ := sound.bounded
  induction size : s.programs n using (next_wellFounded.cutExpand).induction generalizing s with
  | _ programs ih =>
    by_cases ended : ∀ tid, s.threads tid = .idle
    · exact .reached ended
    · obtain ⟨tid,busy⟩ := not_forall.mp ended
      refine .later ?_ ?_
      · obtain ⟨mover,t,moved⟩ := progress body sound busy
        exact ⟨t,mover,0,moved⟩
      · rintro t ⟨mover,choice,moved⟩
        have inside : mover < n := by
          by_contra beyond
          have idle := rest mover (Nat.le_of_not_lt beyond)
          simp [step,idle] at moved
        refine ih _ (size ▸ programs_step inside moved) (sound_step bodies sound moved) ?_ rfl
        intro other beyond
        rw [step_other moved (by omega)]
        exact rest other beyond

/-- A schedule, as far as every step of it is possible and meets the condition. -/
def executeWhile (body : Call → Program Mutex Cell Value Answer)
    (condition : Nat → System Call Mutex Cell Value Answer → Prop)
    [∀ tid s, Decidable (condition tid s)] :
    List (Nat × Action Call) → System Call Mutex Cell Value Answer →
      Option (System Call Mutex Cell Value Answer)
  | [],s => some s
  | (tid,action) :: schedule,s =>
    if condition tid s then (step body s tid action).bind (executeWhile body condition schedule)
    else none

theorem executeWhile_run {condition : Nat → System Call Mutex Cell Value Answer → Prop}
    [∀ tid s, Decidable (condition tid s)] (schedule : List (Nat × Action Call))
    (executed : executeWhile body condition schedule s = some t) : Run body condition s t := by
  induction schedule generalizing s with
  | nil =>
    cases executed
    exact .refl
  | cons head rest ih =>
    obtain ⟨tid,action⟩ := head
    simp only [executeWhile] at executed
    split at executed
    · obtain ⟨middle,moved,later⟩ := Option.bind_eq_some_iff.mp executed
      exact .head ⟨tid,action,by assumption,moved⟩ (ih later)
    · contradiction

theorem executeWhile_other {condition : Nat → System Call Mutex Cell Value Answer → Prop}
    [∀ tid s, Decidable (condition tid s)] (schedule : List (Nat × Action Call))
    (executed : executeWhile body condition schedule s = some t)
    (outside : ∀ x ∈ schedule, x.1 ≠ tid) : t.threads tid = s.threads tid := by
  induction schedule generalizing s with
  | nil =>
    cases executed
    rfl
  | cons head rest ih =>
    obtain ⟨mover,action⟩ := head
    simp only [executeWhile] at executed
    split at executed
    · obtain ⟨middle,moved,later⟩ := Option.bind_eq_some_iff.mp executed
      rw [ih later fun x member => outside x (List.mem_cons_of_mem _ member)]
      exact step_other moved (outside _ List.mem_cons_self).symm
    · contradiction

def endState (body : Call → Program Mutex Cell Value Answer)
    (condition : Nat → System Call Mutex Cell Value Answer → Prop)
    [∀ tid s, Decidable (condition tid s)] (cells : Cell → Value)
    (schedule : List (Nat × Action Call)) : System Call Mutex Cell Value Answer :=
  (executeWhile body condition schedule (.initial cells)).getD (.initial cells)

theorem endState_run {condition : Nat → System Call Mutex Cell Value Answer → Prop}
    [∀ tid s, Decidable (condition tid s)] {cells : Cell → Value}
    (schedule : List (Nat × Action Call))
    (possible : (executeWhile body condition schedule (.initial cells)).isSome = true) :
    Run body condition (.initial cells) (endState body condition cells schedule) := by
  obtain ⟨t,executed⟩ := Option.isSome_iff_exists.mp possible
  rw [endState,executed]
  exact executeWhile_run schedule executed

theorem endState_idle {condition : Nat → System Call Mutex Cell Value Answer → Prop}
    [∀ tid s, Decidable (condition tid s)] {cells : Cell → Value}
    (schedule : List (Nat × Action Call)) (last : s = endState body condition cells schedule)
    (threads : ∀ x ∈ schedule, x.1 < n)
    (ended : ∀ tid < n, (s.threads tid).program?.isNone = true) (tid : Nat) :
    s.threads tid = .idle := by
  by_cases few : tid < n
  · have none := ended tid few
    cases here : s.threads tid with
    | idle => rfl
    | running call program =>
      rw [here] at none
      cases none
  · rw [last,endState]
    cases executed : executeWhile body condition schedule (.initial cells) with
    | none => rfl
    | some t =>
      refine executeWhile_other schedule executed fun x member same => ?_
      have := threads x member
      omega

def runs (tid n : Nat) : List (Nat × Action Call) := List.replicate n (tid,.run 0)

end Locking
