import CuckooFilter.Locking

/-! Sections as single steps. What a disciplined program does between taking a mutex and
giving it back cannot be seen by the others, as long as no access under no mutex meets it;
such a run is one of a machine that takes each section whole. -/
namespace Locking

variable {Call Mutex Cell Value Answer : Type} [DecidableEq Mutex] [DecidableEq Cell]
variable {body : Call → Program Mutex Cell Value Answer} {guard : Cell → Mutex}
variable {bare : Call → Program Mutex Cell Value Answer → Prop}
variable {s t a b : System Call Mutex Cell Value Answer} {tid : Nat}

/-- Reads, writes and choices alone lead from a program to a later one. -/
inductive Inside (start : Program Mutex Cell Value Answer) (cells : Cell → Value) :
    (Cell → Value) → Program Mutex Cell Value Answer → Prop where
  | here : Inside start cells cells start
  | read (past : Inside start cells after (.read cell next)) :
      Inside start cells after (next (after cell))
  | write (past : Inside start cells after (.write cell value next)) :
      Inside start cells (Function.update after cell value) next
  | choose (past : Inside start cells after (.choose next)) (choice : Nat) :
      Inside start cells after (next choice)

variable {start program rest : Program Mutex Cell Value Answer} {cells after outer : Cell → Value}

omit [DecidableEq Mutex] in
theorem Inside.cases_head (inside : Inside start cells after program) :
    program = start ∧ after = cells ∨
      match start with
      | .read cell next => Inside (next (cells cell)) cells after program
      | .write cell value next => Inside next (Function.update cells cell value) after program
      | .choose next => ∃ choice, Inside (next choice) cells after program
      | _ => False := by
  induction inside with
  | here => exact .inl ⟨rfl,rfl⟩
  | read past ih =>
    rcases ih with ⟨rfl,rfl⟩ | later
    · exact .inr .here
    · refine .inr ?_
      cases start with
      | read => exact .read later
      | write => exact .read later
      | choose => exact later.imp fun _ inside => .read inside
      | _ => exact later
  | write past ih =>
    rcases ih with ⟨rfl,rfl⟩ | later
    · exact .inr .here
    · refine .inr ?_
      cases start with
      | read => exact .write later
      | write => exact .write later
      | choose => exact later.imp fun _ inside => .write inside
      | _ => exact later
  | choose past choice ih =>
    rcases ih with ⟨rfl,rfl⟩ | later
    · exact .inr ⟨choice,.here⟩
    · refine .inr ?_
      cases start with
      | read => exact .choose later choice
      | write => exact .choose later choice
      | choose => exact later.imp fun _ inside => .choose inside choice
      | _ => exact later

omit [DecidableEq Mutex] in
theorem Inside.of_read {next : Value → Program Mutex Cell Value Answer}
    (inside : Inside (.read cell next) cells after (.release mutex rest)) :
    Inside (next (cells cell)) cells after (.release mutex rest) :=
  inside.cases_head.resolve_left fun ⟨same,_⟩ => by cases same

omit [DecidableEq Mutex] in
theorem Inside.of_write {next : Program Mutex Cell Value Answer}
    (inside : Inside (.write cell value next) cells after (.release mutex rest)) :
    Inside next (Function.update cells cell value) after (.release mutex rest) :=
  inside.cases_head.resolve_left fun ⟨same,_⟩ => by cases same

omit [DecidableEq Mutex] in
theorem Inside.of_choose {next : Nat → Program Mutex Cell Value Answer}
    (inside : Inside (.choose next) cells after (.release mutex rest)) :
    ∃ choice, Inside (next choice) cells after (.release mutex rest) :=
  inside.cases_head.resolve_left fun ⟨same,_⟩ => by cases same

omit [DecidableEq Mutex] in
theorem Inside.of_release (inside : Inside (.release other start) cells after (.release mutex rest)) :
    other = mutex ∧ start = rest ∧ after = cells := by
  rcases inside.cases_head with ⟨same,kept⟩ | later
  · cases same
    exact ⟨rfl,rfl,kept⟩
  · exact later.elim

/-- The cells of one mutex from one table, the others from another. -/
def merge (guard : Cell → Mutex) (mutex : Mutex) (own others : Cell → Value) : Cell → Value :=
  fun cell => if guard cell = mutex then own cell else others cell

omit [DecidableEq Cell] in
theorem merge_own (inside : guard cell = mutex) : merge guard mutex cells outer cell = cells cell :=
  if_pos inside

omit [DecidableEq Cell] in
theorem merge_self (same : ∀ cell, guard cell = mutex → cells cell = outer cell) :
    merge guard mutex cells outer = outer := by
  funext cell
  unfold merge
  split
  · exact same cell (by assumption)
  · rfl

omit [DecidableEq Cell] in
theorem merge_congr (same : ∀ cell, guard cell = mutex → cells cell = after cell) :
    merge guard mutex cells outer = merge guard mutex after outer := by
  funext cell
  unfold merge
  split
  · exact same cell (by assumption)
  · rfl

theorem merge_update (inside : guard cell = mutex) (value : Value) :
    merge guard mutex (Function.update cells cell value) outer =
      Function.update (merge guard mutex cells outer) cell value := by
  funext x
  by_cases here : x = cell
  · subst x
    simp [merge,inside]
  · simp [merge,here]

omit [DecidableEq Mutex] in
theorem Inside.disciplined {bare : Program Mutex Cell Value Answer → Prop}
    (inside : Inside start cells after program)
    (disciplined : Disciplined guard bare (some held) start) :
    Disciplined guard bare (some held) program := by
  induction inside with
  | here => exact disciplined
  | read past ih => exact ih.2 _
  | write past ih => exact ih.2
  | choose past choice ih => exact ih choice

/-- A section goes by the cells of its mutex only. -/
theorem Inside.frame {bare : Program Mutex Cell Value Answer → Prop}
    (inside : Inside start cells after program)
    (disciplined : Disciplined guard bare (some (mutex,mode)) start)
    (same : ∀ cell, guard cell = mutex → cells cell = outer cell) :
    Inside start outer (merge guard mutex after outer) program := by
  induction inside with
  | here =>
    rw [merge_self same]
    exact .here
  | @read after cell next past ih =>
    obtain ⟨covered,-⟩ := past.disciplined disciplined
    have own : guard cell = mutex := by
      rcases covered with ⟨none,-⟩ | ⟨mode',held⟩
      · cases none
      · cases held
        rfl
    have read := Inside.read ih
    rwa [merge_own own] at read
  | @write after cell value next past ih =>
    obtain ⟨covered,-⟩ := past.disciplined disciplined
    have own : guard cell = mutex := by
      rcases covered with ⟨none,-⟩ | held
      · cases none
      · cases held
        rfl
    rw [merge_update own]
    exact .write ih
  | choose past choice ih => exact .choose ih choice

/-- A step of a thread that takes no mutex, or a whole section. -/
inductive AtomicStep (body : Call → Program Mutex Cell Value Answer)
    (a : System Call Mutex Cell Value Answer) (tid : Nat) :
    System Call Mutex Cell Value Answer → Prop where
  | invoke (idle : a.threads tid = .idle) (call : Call) :
      AtomicStep body a tid ⟨a.cells,a.locks,a.become tid (.running call (body call)),
        .invoke tid call :: a.history⟩
  | done (site : a.threads tid = .running call (.done answer)) :
      AtomicStep body a tid
        ⟨a.cells,a.locks,a.become tid .idle,.respond tid call answer :: a.history⟩
  | read (site : a.threads tid = .running call (.read cell next)) :
      AtomicStep body a tid
        ⟨a.cells,a.locks,a.become tid (.running call (next (a.cells cell))),a.history⟩
  | write (site : a.threads tid = .running call (.write cell value next)) :
      AtomicStep body a tid ⟨Function.update a.cells cell value,a.locks,
        a.become tid (.running call next),a.history⟩
  | choose (site : a.threads tid = .running call (.choose next)) (choice : Nat) :
      AtomicStep body a tid
        ⟨a.cells,a.locks,a.become tid (.running call (next choice)),a.history⟩
  | whole {after : Cell → Value} {rest : Program Mutex Cell Value Answer}
      (site : a.threads tid = .running call (.acquire mutex mode next))
      (inside : Inside next a.cells after (.release mutex rest)) :
      AtomicStep body a tid ⟨after,a.locks,a.become tid (.running call rest),a.history⟩

def AtomicRun (body : Call → Program Mutex Cell Value Answer)
    (condition : Nat → System Call Mutex Cell Value Answer → Prop) :
    System Call Mutex Cell Value Answer → System Call Mutex Cell Value Answer → Prop :=
  Relation.ReflTransGen fun a b => ∃ tid, condition tid a ∧ AtomicStep body a tid b

/-- The thread's next access meets no section of another thread, unless both only read. -/
def RaceFree (guard : Cell → Mutex) (tid : Nat) (s : System Call Mutex Cell Value Answer) : Prop :=
  ∀ cell writes, (s.threads tid).access? = some (cell,writes) →
    ∀ holder ∈ s.locks (guard cell), holder.1 ≠ tid → writes = false ∧ holder.2 = .shared

instance (guard : Cell → Mutex) (tid : Nat) (s : System Call Mutex Cell Value Answer) :
    Decidable (RaceFree guard tid s) :=
  decidable_of_iff (∀ access ∈ (s.threads tid).access?, ∀ holder ∈ s.locks (guard access.1),
    holder.1 ≠ tid → access.2 = false ∧ holder.2 = .shared)
    ⟨fun free cell writes accesses => free (cell,writes) accesses,
      fun free access accesses => free access.1 access.2 accesses⟩

/-- The machine of whole sections has run each section up to the last mutex operation, the
other one is inside those whose mutexes are held. -/
structure Related (guard : Cell → Mutex) (bare : Call → Program Mutex Cell Value Answer → Prop)
    (s a : System Call Mutex Cell Value Answer) : Prop where
  history : a.history = s.history
  cells : ∀ cell, (∀ holder ∈ s.locks (guard cell), holder.2 = .shared) →
    a.cells cell = s.cells cell
  free : ∀ tid, s.Holds tid none → a.threads tid = s.threads tid
  held : ∀ tid mutex mode, (tid,mode) ∈ s.locks mutex → ∃ call start program,
    a.threads tid = .running call (.acquire mutex mode start) ∧
    s.threads tid = .running call program ∧
    Disciplined guard (bare call) (some (mutex,mode)) start ∧
    Inside start a.cells (merge guard mutex s.cells a.cells) program

theorem related_initial (cells : Cell → Value) : Related guard bare
    (System.initial cells : System Call Mutex Cell Value Answer) (System.initial cells) := by
  refine ⟨rfl,fun _ _ => rfl,fun _ _ => rfl,?_⟩
  intro tid mutex mode member
  simp [System.initial] at member

theorem Related.merge_shared (related : Related guard bare s a)
    (shared : ∀ holder ∈ s.locks mutex, holder.2 = .shared) :
    merge guard mutex s.cells a.cells = a.cells :=
  merge_self fun cell inside => (related.cells cell (inside ▸ shared)).symm

/-- One thread moves; the sections of the others do not see it. -/
theorem Related.move (related : Related guard bare s a) (history : b.history = t.history)
    (others : ∀ other, other ≠ tid → t.threads other = s.threads other)
    (others' : ∀ other, other ≠ tid → b.threads other = a.threads other)
    (locks : ∀ other, other ≠ tid → ∀ mutex mode,
      (other,mode) ∈ t.locks mutex ↔ (other,mode) ∈ s.locks mutex)
    (cells : ∀ cell, (∀ holder ∈ t.locks (guard cell), holder.2 = .shared) →
      b.cells cell = t.cells cell)
    (unseen : ∀ other, other ≠ tid → ∀ cell mode, (other,mode) ∈ s.locks (guard cell) →
      s.cells cell = t.cells cell ∧ a.cells cell = b.cells cell)
    (free : t.Holds tid none → b.threads tid = t.threads tid)
    (held : ∀ mutex mode, (tid,mode) ∈ t.locks mutex → ∃ call start program,
      b.threads tid = .running call (.acquire mutex mode start) ∧
      t.threads tid = .running call program ∧
      Disciplined guard (bare call) (some (mutex,mode)) start ∧
      Inside start b.cells (merge guard mutex t.cells b.cells) program) :
    Related guard bare t b := by
  refine ⟨history,cells,fun mover nothing => ?_,fun mover mutex mode member => ?_⟩
  · by_cases same : mover = tid
    · subst mover
      exact free nothing
    · rw [others mover same,others' mover same]
      exact related.free mover fun mutex mode => by rw [← locks mover same]; exact nothing mutex mode
  · by_cases same : mover = tid
    · subst mover
      exact held mutex mode member
    · have old := (locks mover same mutex mode).mp member
      obtain ⟨call,start,program,site,site',disciplined,inside⟩ := related.held mover mutex mode old
      refine ⟨call,start,program,?_,?_,disciplined,?_⟩
      · rw [others' mover same]
        exact site
      · rw [others mover same]
        exact site'
      · have kept (cell : Cell) (own : guard cell = mutex) :=
          unseen mover same cell mode (by rw [own]; exact old)
        have moved := inside.frame disciplined fun cell own => (kept cell own).2
        rwa [merge_congr fun cell own => (merge_own own).trans (kept cell own).1] at moved

theorem Related.inside (related : Related guard bare s a) (sound : Sound guard bare s)
    (holds : s.Holds tid (some (mutex,mode))) (locks : t.locks = s.locks)
    (history : t.history = s.history)
    (others : ∀ other, other ≠ tid → t.threads other = s.threads other)
    (apart : ∀ cell, guard cell ≠ mutex ∨ mode = .shared → t.cells cell = s.cells cell)
    (own : ∀ call start program, s.threads tid = .running call program →
      Inside start a.cells (merge guard mutex s.cells a.cells) program → ∃ program',
        t.threads tid = .running call program' ∧
        Inside start a.cells (merge guard mutex t.cells a.cells) program') :
    Related guard bare t a := by
  have member : (tid,mode) ∈ s.locks mutex := (holds mutex mode).mpr rfl
  have alone (cell : Cell) (strong : mode = .exclusive) (inside : guard cell = mutex)
      (holder : Nat × Mode) (there : holder ∈ s.locks (guard cell)) : holder = (tid,.exclusive) := by
    subst strong
    rw [inside,sound.alone mutex _ member rfl] at there
    exact List.mem_singleton.mp there
  refine related.move (related.history.trans history.symm) others (fun _ _ => rfl)
    (fun _ _ _ _ => by rw [locks]) ?_ ?_ ?_ ?_
  · intro cell shared
    rw [locks] at shared
    by_cases untouched : guard cell ≠ mutex ∨ mode = .shared
    · rw [apart cell untouched]
      exact related.cells cell shared
    · obtain ⟨inside,strong⟩ := not_or.mp untouched
      have weak := shared (tid,mode) (not_not.mp inside ▸ member)
      exact absurd weak strong
  · intro other away cell mode' there
    refine ⟨(apart cell ?_).symm,rfl⟩
    by_contra untouched
    obtain ⟨inside,strong⟩ := not_or.mp untouched
    have exclusive : mode = .exclusive := by
      cases mode with
      | shared => exact absurd rfl strong
      | exclusive => rfl
    exact away (congrArg Prod.fst (alone cell exclusive (not_not.mp inside) _ there))
  · intro nothing
    rw [System.Holds,locks] at nothing
    cases (nothing mutex mode).mp member
  · intro mutex' mode' there
    rw [locks] at there
    obtain ⟨rfl,rfl⟩ : mutex = mutex' ∧ mode = mode' := by
      simpa using (holds mutex' mode').mp there
    obtain ⟨call,start,program,site,site',disciplined,inside⟩ := related.held tid mutex mode there
    obtain ⟨program',site',inside⟩ := own call start program site' inside
    exact ⟨call,start,program',site,site',disciplined,inside⟩

theorem Related.outside (related : Related guard bare s a) (holds : s.Holds tid none)
    (locks : t.locks = s.locks) (history : b.history = t.history)
    (others : ∀ other, other ≠ tid → t.threads other = s.threads other)
    (others' : ∀ other, other ≠ tid → b.threads other = a.threads other)
    (own : b.threads tid = t.threads tid)
    (cells : ∀ cell, (∀ holder ∈ s.locks (guard cell), holder.2 = .shared) →
      b.cells cell = t.cells cell)
    (unseen : ∀ other, other ≠ tid → ∀ cell mode, (other,mode) ∈ s.locks (guard cell) →
      s.cells cell = t.cells cell ∧ a.cells cell = b.cells cell) :
    Related guard bare t b := by
  refine related.move history others others' (fun _ _ _ _ => by rw [locks])
    (fun cell shared => cells cell (by rwa [locks] at shared)) unseen (fun _ => own) ?_
  intro mutex mode there
  rw [locks] at there
  cases (holds mutex mode).mp there

omit [DecidableEq Mutex] [DecidableEq Cell] in
theorem Sound.together (sound : Sound guard bare s) (first : (tid,mode) ∈ s.locks mutex)
    (second : (other,mode') ∈ s.locks mutex) (apart : other ≠ tid) (holder : Nat × Mode)
    (member : holder ∈ s.locks mutex) : holder.2 = .shared := by
  cases strong : holder.2 with
  | shared => rfl
  | exclusive =>
    rw [sound.alone mutex holder member strong,List.mem_singleton] at first second
    exact absurd (congrArg Prod.fst (second.trans first.symm)) apart

omit [DecidableEq Mutex] [DecidableEq Cell] in
theorem RaceFree.shared (race : RaceFree guard tid s) (holds : s.Holds tid none)
    (accesses : (s.threads tid).access? = some (cell,writes)) (holder : Nat × Mode)
    (member : holder ∈ s.locks (guard cell)) :
    holder.1 ≠ tid ∧ writes = false ∧ holder.2 = .shared := by
  have away : holder.1 ≠ tid := by
    rintro rfl
    cases (holds (guard cell) holder.2).mp member
  exact ⟨away,race cell writes accesses holder member away⟩

theorem related_acquire (sound : Sound guard bare s) (related : Related guard bare s a)
    (site : s.threads tid = .running call (.acquire mutex mode next))
    (granted : grants (s.locks mutex) mode = true)
    (locks : t.locks = Function.update s.locks mutex ((tid,mode) :: s.locks mutex))
    (cells : t.cells = s.cells) (history : t.history = s.history)
    (own : t.threads tid = .running call next)
    (others : ∀ other, other ≠ tid → t.threads other = s.threads other) :
    Related guard bare t a := by
  obtain ⟨held,holds,rfl,disciplined⟩ := sound.running site
  have member : (tid,mode) ∈ t.locks mutex := by simp [locks]
  refine related.move (related.history.trans history.symm) others (fun _ _ => rfl) ?_ ?_ ?_ ?_ ?_
  · intro other away mutex' mode'
    rw [locks]
    by_cases here : mutex' = mutex
    · subst mutex'
      simp [away]
    · simp [here]
  · intro cell shared
    rw [cells]
    refine related.cells cell fun holder there => shared holder ?_
    rw [locks]
    by_cases here : guard cell = mutex
    · rw [here] at there ⊢
      simp [there]
    · simpa [here] using there
  · intro other _ cell mode' _
    rw [cells]
    exact ⟨rfl,rfl⟩
  · intro nothing
    cases (nothing mutex mode).mp member
  · intro mutex' mode' there
    have none := holds mutex' mode'
    have same : mutex' = mutex ∧ mode' = mode := by
      rw [locks] at there
      by_cases here : mutex' = mutex
      · subst mutex'
        rw [Function.update_self] at there
        rcases List.mem_cons.mp there with new | old
        · exact ⟨rfl,congrArg Prod.snd new⟩
        · cases none.mp old
      · rw [Function.update_of_ne here] at there
        cases none.mp there
    obtain ⟨rfl,rfl⟩ := same
    refine ⟨call,next,next,(related.free tid holds).trans site,own,disciplined,?_⟩
    rw [cells,related.merge_shared fun holder there => (grants_shared granted there).1]
    exact .here

variable (body) in
theorem related_release (t : System Call Mutex Cell Value Answer)
    (sound : Sound guard bare s) (related : Related guard bare s a)
    (site : s.threads tid = .running call (.release mutex next))
    (locks : t.locks = Function.update s.locks mutex ((s.locks mutex).filter (·.1 ≠ tid)))
    (cells : t.cells = s.cells) (history : t.history = s.history)
    (own : t.threads tid = .running call next)
    (others : ∀ other, other ≠ tid → t.threads other = s.threads other) :
    ∃ b, Related guard bare t b ∧ AtomicStep body a tid b ∧ (a.threads tid).access? = none := by
  obtain ⟨held,holds,⟨mode,rfl⟩,-⟩ := sound.running site
  have member : (tid,mode) ∈ s.locks mutex := (holds mutex mode).mpr rfl
  obtain ⟨call',start,program,site',site'',-,inside⟩ := related.held tid mutex mode member
  cases site.symm.trans site''
  refine ⟨_,?_,.whole site' inside,by rw [site']; rfl⟩
  have elsewhere (other : Mutex) (apart : other ≠ mutex) : t.locks other = s.locks other := by
    rw [locks,Function.update_of_ne apart]
  refine related.move (related.history.trans history.symm) others
    (fun other away => become_other a _ away) ?_ ?_ ?_ ?_ ?_
  · intro other away mutex' mode'
    by_cases here : mutex' = mutex
    · subst mutex'
      rw [locks]
      simp [away]
    · rw [elsewhere mutex' here]
  · intro cell shared
    rw [cells]
    by_cases here : guard cell = mutex
    · exact merge_own here
    · rw [elsewhere _ here] at shared
      exact (if_neg here).trans (related.cells cell shared)
  · intro other away cell mode' there
    rw [cells]
    refine ⟨rfl,?_⟩
    by_cases here : guard cell = mutex
    · rw [here] at there
      refine (related.cells cell fun holder old => ?_).trans (merge_own here).symm
      rw [here] at old
      exact sound.together member there away holder old
    · exact (if_neg here).symm
  · intro _
    rw [own]
    exact become_own a tid _
  · intro mutex' mode' there
    by_cases here : mutex' = mutex
    · subst mutex'
      rw [locks] at there
      simp at there
    · rw [elsewhere mutex' here] at there
      cases (holds mutex' mode').mp there
      exact absurd rfl here

/-- The machine of whole sections moves along with a step to `t`, or stands still. If it accesses
cells under no mutex, the other one makes the same step. -/
def Followed (body : Call → Program Mutex Cell Value Answer) (guard : Cell → Mutex)
    (bare : Call → Program Mutex Cell Value Answer → Prop)
    (s a : System Call Mutex Cell Value Answer) (tid : Nat)
    (t : System Call Mutex Cell Value Answer) : Prop :=
  ∃ b, Related guard bare t b ∧ (b = a ∨ AtomicStep body a tid b ∧
    ((a.threads tid).access? = none ∨ s.Holds tid none ∧ a.threads tid = s.threads tid))

section
variable (sound : Sound guard bare s) (related : Related guard bare s a)
include sound related

theorem followed_invoke (idle : s.threads tid = .idle) (call : Call) :
    Followed body guard bare s a tid ⟨s.cells,s.locks,s.become tid (.running call (body call)),
      .invoke tid call :: s.history⟩ := by
  obtain ⟨held,holds,disciplined⟩ := sound.thread tid
  rw [idle] at disciplined
  cases disciplined
  have site := (related.free tid holds).trans idle
  refine ⟨_,?_,.inr ⟨.invoke site call,.inl (by rw [site]; rfl)⟩⟩
  refine related.outside holds rfl (by rw [related.history]) (fun _ => become_other s _)
    (fun _ => become_other a _) ?_ related.cells fun _ _ _ _ _ => ⟨rfl,rfl⟩
  simp only [become_own]

theorem followed_done (site : s.threads tid = .running call (.done answer)) :
    Followed body guard bare s a tid
      ⟨s.cells,s.locks,s.become tid .idle,.respond tid call answer :: s.history⟩ := by
  obtain ⟨held,holds,rfl⟩ := sound.running site
  have site' := (related.free tid holds).trans site
  refine ⟨_,?_,.inr ⟨.done site',.inl (by rw [site']; rfl)⟩⟩
  refine related.outside holds rfl (by rw [related.history]) (fun _ => become_other s _)
    (fun _ => become_other a _) ?_ related.cells fun _ _ _ _ _ => ⟨rfl,rfl⟩
  simp only [become_own]

theorem followed_read (race : RaceFree guard tid s)
    (site : s.threads tid = .running call (.read cell next)) :
    Followed body guard bare s a tid
      ⟨s.cells,s.locks,s.become tid (.running call (next (s.cells cell))),s.history⟩ := by
  obtain ⟨held,holds,covered,-⟩ := sound.running site
  rcases covered with ⟨rfl,-⟩ | ⟨mode,rfl⟩
  · have site' := (related.free tid holds).trans site
    have same : a.cells cell = s.cells cell := related.cells cell fun holder there =>
      (race.shared holds (by rw [site]; rfl) holder there).2.2
    refine ⟨_,?_,.inr ⟨.read site',.inr ⟨holds,related.free tid holds⟩⟩⟩
    refine related.outside holds rfl related.history (fun _ => become_other s _)
      (fun _ => become_other a _) ?_ related.cells fun _ _ _ _ _ => ⟨rfl,rfl⟩
    simp only [become_own,same]
  · refine ⟨a,?_,.inl rfl⟩
    refine related.inside sound holds rfl rfl (fun _ => become_other s _) (fun _ _ => rfl) ?_
    intro call' start program site' inside
    cases site.symm.trans site'
    refine ⟨_,become_own s tid _,?_⟩
    have read := Inside.read inside
    rwa [merge_own rfl] at read

theorem followed_write (race : RaceFree guard tid s)
    (site : s.threads tid = .running call (.write cell value next)) :
    Followed body guard bare s a tid ⟨Function.update s.cells cell value,s.locks,
      s.become tid (.running call next),s.history⟩ := by
  obtain ⟨held,holds,covered,-⟩ := sound.running site
  rcases covered with ⟨rfl,-⟩ | rfl
  · have site' := (related.free tid holds).trans site
    have unheld (holder : Nat × Mode) : holder ∉ s.locks (guard cell) := by
      intro there
      cases (race.shared holds (by rw [site]; rfl) holder there).2.1
    refine ⟨_,?_,.inr ⟨.write site',.inr ⟨holds,related.free tid holds⟩⟩⟩
    refine related.outside holds rfl related.history (fun _ => become_other s _)
      (fun _ => become_other a _) ?_ ?_ ?_
    · simp only [become_own]
    · intro other shared
      by_cases here : other = cell
      · subst other
        simp
      · simpa [here] using related.cells other shared
    · intro other _ other' mode there
      have apart : other' ≠ cell := by
        rintro rfl
        exact unheld _ there
      simp [apart]
  · refine ⟨a,?_,.inl rfl⟩
    refine related.inside sound holds rfl rfl (fun _ => become_other s _) ?_ ?_
    · rintro other (apart | weak)
      · have away : other ≠ cell := by
          rintro rfl
          exact apart rfl
        simp [away]
      · cases weak
    · intro call' start program site' inside
      cases site.symm.trans site'
      refine ⟨_,become_own s tid _,?_⟩
      simp only [merge_update rfl]
      exact .write inside

theorem followed_choose (site : s.threads tid = .running call (.choose next)) (choice : Nat) :
    Followed body guard bare s a tid
      ⟨s.cells,s.locks,s.become tid (.running call (next choice)),s.history⟩ := by
  obtain ⟨held,holds,-⟩ := sound.running site
  cases held with
  | none =>
    have site' := (related.free tid holds).trans site
    refine ⟨_,?_,.inr ⟨.choose site' choice,.inl (by rw [site']; rfl)⟩⟩
    refine related.outside holds rfl related.history (fun _ => become_other s _)
      (fun _ => become_other a _) ?_ related.cells fun _ _ _ _ _ => ⟨rfl,rfl⟩
    simp only [become_own]
  | some held =>
    refine ⟨a,?_,.inl rfl⟩
    refine related.inside sound holds rfl rfl (fun _ => become_other s _) (fun _ _ => rfl) ?_
    intro call' start program site' inside
    cases site.symm.trans site'
    exact ⟨_,become_own s tid _,.choose inside choice⟩

end

/-- A step that meets no section of another thread is one step of the machine of whole
sections, or none. A step there that accesses cells under no mutex is the same step here. -/
theorem related_step (sound : Sound guard bare s) (related : Related guard bare s a)
    (race : RaceFree guard tid s) (moved : step body s tid action = some t) :
    ∃ b, Related guard bare t b ∧ (b = a ∨ AtomicStep body a tid b ∧
      ((a.threads tid).access? = none ∨
        s.Holds tid none ∧ a.threads tid = s.threads tid)) := by
  have others (other : Nat) (away : other ≠ tid) := step_other moved away
  have released {call : Call} {mutex : Mutex} {next : Program Mutex Cell Value Answer}
      (site : s.threads tid = .running call (.release mutex next)) locks cells history own :=
    related_release body t sound related site locks cells history own others
  cases step_moved moved with
  | invoke idle call => exact followed_invoke sound related idle call
  | done site => exact followed_done sound related site
  | read site => exact followed_read sound related race site
  | write site => exact followed_write sound related race site
  | choose site choice => exact followed_choose sound related site choice
  | acquire site choice granted =>
    exact ⟨a,related_acquire sound related site granted rfl rfl rfl (become_own s tid _) others,
      .inl rfl⟩
  | release site choice =>
    obtain ⟨b,next,whole,quiet⟩ := released site rfl rfl rfl (become_own s tid _)
    exact ⟨b,next,.inr ⟨whole,.inl quiet⟩⟩

omit [DecidableEq Mutex] [DecidableEq Cell] in
/-- An access meets no other section if it is made under its mutex, or nobody else is inside
a call. -/
theorem Sound.race_free (sound : Sound guard bare s)
    (alone : s.Bare bare tid → ∀ other, other ≠ tid → s.threads other = .idle) :
    RaceFree guard tid s := by
  intro cell writes accesses holder member away
  rcases access_guarded sound accesses with exposed | ⟨mode,holds,strong⟩
  · have none := sound.idle_free (alone exposed holder.1 away)
    cases (none (guard cell) holder.2).mp member
  · refine ⟨?_,sound.together holds member away holder member⟩
    cases writes with
    | false => rfl
    | true =>
      cases strong rfl
      exact absurd (sound.excludes holds member) away

omit [DecidableEq Mutex] [DecidableEq Cell] in
theorem guarded_race_free (sound : Sound guard (fun _ _ => False) s) :
    RaceFree guard tid s :=
  sound.race_free fun ⟨_,_,_,_,exposed⟩ => exposed.elim

/-- A run that is free of races is a run of the machine of whole sections. -/
theorem run_related (bodies : ∀ call, Disciplined guard (bare call) none (body call))
    {condition condition' : Nat → System Call Mutex Cell Value Answer → Prop}
    (free : ∀ tid s, Sound guard bare s → condition tid s → RaceFree guard tid s)
    (meets : ∀ tid s a, Sound guard bare s → Related guard bare s a → condition tid s →
      ((a.threads tid).access? = none ∨ s.Holds tid none ∧ a.threads tid = s.threads tid) →
      condition' tid a)
    (run : Run body condition (.initial cells) s) :
    ∃ a, AtomicRun body condition' (.initial cells) a ∧ Related guard bare s a := by
  have both : Sound guard bare s ∧
      ∃ a, AtomicRun body condition' (.initial cells) a ∧ Related guard bare s a := by
    refine Transition.run_invariant (fun s => Sound guard bare s ∧
      ∃ a, AtomicRun body condition' (.initial cells) a ∧ Related guard bare s a) ?_
      ⟨sound_initial cells,_,.refl,related_initial cells⟩ run
    rintro s t ⟨sound,a,past,related⟩ ⟨tid,action,allowed,moved⟩
    refine ⟨sound_step bodies sound moved,?_⟩
    obtain ⟨b,next,rfl | ⟨stepped,quiet⟩⟩ :=
      related_step sound related (free tid s sound allowed) moved
    · exact ⟨b,past,next⟩
    · exact ⟨b,.tail past ⟨tid,meets tid s a sound related allowed quiet,stepped⟩,next⟩
  exact both.2

/-- The section is the last of its program. -/
def Program.Ends : Program Mutex Cell Value Answer → Prop
  | .read _ next => ∀ value, (next value).Ends
  | .write _ _ next => next.Ends
  | .choose next => ∀ choice, (next choice).Ends
  | .release _ (.done _) => True
  | _ => False

def Program.Whole : Program Mutex Cell Value Answer → Prop
  | .acquire _ _ next => next.Ends
  | _ => False

/-- The object that serves each call by its section. -/
def sectionObject (body : Call → Program Mutex Cell Value Answer) (cells : Cell → Value) :
    Linearization.Object Call Answer (Cell → Value) :=
  ⟨cells,fun before call answer after => ∃ mutex mode next, body call = .acquire mutex mode next ∧
    Inside next before after (.release mutex (.done answer))⟩

omit [DecidableEq Mutex] in
theorem Inside.ends (inside : Inside start cells after program) (ends : start.Ends) :
    program.Ends := by
  induction inside with
  | here => exact ends
  | read past ih => exact ih _
  | write past ih => exact ih
  | choose past choice ih => exact ih choice

/-- A thread has not started its section, or has it behind. -/
inductive Matches (body : Call → Program Mutex Cell Value Answer) :
    Thread Call Mutex Cell Value Answer → Linearization.Phase Call Answer → Prop where
  | idle : Matches body .idle .idle
  | pending {program : Program Mutex Cell Value Answer} (start : program = body call) :
      Matches body (.running call program) (.pending call)
  | effective {program : Program Mutex Cell Value Answer} (ended : program = .done answer) :
      Matches body (.running call program) (.effective call answer)

omit [DecidableEq Mutex] [DecidableEq Cell] in
theorem matches_become {phases : Nat → Linearization.Phase Call Answer}
    (agree : ∀ tid, Matches body (a.threads tid) (phases tid))
    (own : Matches body thread phase) (other : Nat) :
    Matches body (a.become tid thread other) (Function.update phases tid phase other) := by
  by_cases same : other = tid
  · subst other
    rw [become_own,Function.update_self]
    exact own
  · rw [become_other a thread same,Function.update_of_ne same]
    exact agree other

omit [DecidableEq Mutex] in
theorem atomic_linearizes (whole : ∀ call, (body call).Whole)
    {condition : Nat → System Call Mutex Cell Value Answer → Prop}
    (run : AtomicRun body condition (.initial cells) a) :
    ∃ phases, Linearization.Linearizes (sectionObject body cells) a.history phases a.cells ∧
      ∀ tid, Matches body (a.threads tid) (phases tid) := by
  refine Transition.run_invariant (fun a => ∃ phases,
    Linearization.Linearizes (sectionObject body cells) a.history phases a.cells ∧
      ∀ tid, Matches body (a.threads tid) (phases tid)) ?_ ⟨_,.start,fun _ => .idle⟩ run
  rintro a b ⟨phases,past,agree⟩ ⟨tid,-,stepped⟩
  have own := agree tid
  -- Between sections a program is at its start or at its end.
  cases stepped with
  | invoke idle call =>
    rw [idle] at own
    cases here : phases tid <;> rw [here] at own <;> cases own
    exact ⟨_,past.invoke here call,matches_become agree (.pending rfl)⟩
  | done site =>
    rw [site] at own
    cases here : phases tid <;> rw [here] at own <;> cases own
    · rename_i start
      exact (start ▸ whole _ : Program.Whole (.done _)).elim
    · rename_i ended
      cases ended
      exact ⟨_,past.respond here,matches_become agree .idle⟩
  | read site | write site | choose site =>
    rw [site] at own
    cases here : phases tid <;> rw [here] at own <;> cases own
    · rename_i start
      exact ((congrArg Program.Whole start).mpr (whole _)).elim
    · rename_i ended
      cases ended
  | @whole call mutex mode next after rest site inside =>
    rw [site] at own
    cases here : phases tid <;> rw [here] at own <;> cases own
    · rename_i start
      have ends := inside.ends ((congrArg Program.Whole start).mpr (whole _))
      obtain ⟨answer,rfl⟩ : ∃ answer, rest = .done answer := by
        cases rest with
        | done answer => exact ⟨answer,rfl⟩
        | _ => exact absurd ends id
      exact ⟨_,past.effect here ⟨mutex,mode,next,start.symm,inside⟩,
        matches_become agree (.effective rfl)⟩
    · rename_i ended
      cases ended

/-- Calls of one section each, with all accesses under their mutexes, are linearizable. While
no mutex is held the cells are those of the object. -/
theorem sections_linearizable
    (bodies : ∀ call, Disciplined guard (fun _ => False) none (body call))
    (whole : ∀ call, (body call).Whole) (reachable : Reachable body cells s) :
    ∃ phases state, Linearization.Linearizes (sectionObject body cells) s.history phases state ∧
      ((∀ mutex, s.locks mutex = []) → s.cells = state) ∧
      ∀ tid, s.threads tid = .idle → phases tid = .idle := by
  have sound : Sound guard (fun _ _ => False) s := run_sound bodies reachable
  have whole_sections : ∃ a, AtomicRun body (fun _ _ => True) (.initial cells) a ∧
      Related guard (fun _ _ => False) s a :=
    run_related bodies (fun _ _ sound _ => guarded_race_free sound)
      (fun _ _ _ _ _ _ _ => trivial) reachable
  obtain ⟨a,run,related⟩ := whole_sections
  obtain ⟨phases,linearizes,agree⟩ := atomic_linearizes whole run
  rw [related.history] at linearizes
  refine ⟨phases,_,linearizes,fun free => ?_,fun tid idle => ?_⟩
  · funext cell
    refine (related.cells cell fun holder member => ?_).symm
    rw [free] at member
    cases member
  · have own := agree tid
    rw [related.free tid (sound.idle_free idle),idle] at own
    cases here : phases tid <;> rw [here] at own <;> cases own

end Locking
