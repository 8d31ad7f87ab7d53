import CuckooFilter.FineGrainedBalance

/-! Searches that overlap with insertions, on a machine whose swaps are whole. A stored
fingerprint is in one of its two buckets or in the hands of a kick loop; a search looks into
the one bucket and then into the other. -/
namespace CuckooFilter.FineGrained

variable {cfg : Config} {s t u v : System} {table : Table} {tid mover : Nat}
variable {action : Action} {key fingerprint : Bytes}

def Holds (table : Table) (b : Nat) (fingerprint : Bytes) : Prop :=
  ∃ i < numItemsPerEntry, table.hashTable b i = fingerprint

instance (table : Table) (b : Nat) (fingerprint : Bytes) : Decidable (Holds table b fingerprint) :=
  inferInstanceAs (Decidable (∃ i < numItemsPerEntry, table.hashTable b i = fingerprint))

theorem scan_holds (table : Table) (b : Nat) (fingerprint : Bytes) :
    table.scan (· = fingerprint) b = none ↔ ¬Holds table b fingerprint := by
  constructor
  · rintro missed ⟨i,slot,here⟩
    have other := SequentialFilter.scan_none missed slot
    simp [here] at other
  · intro absent
    cases found : table.scan (· = fingerprint) b with
    | none => rfl
    | some i =>
      obtain ⟨slot,hit⟩ := SequentialFilter.scan_some found
      exact absurd ⟨i,slot,by simpa using hit⟩ absent

/-- No swap stands between its read and its write. -/
def System.Undivided (s : System) : Prop :=
  ∀ tid f n b i victim, s.control tid = .insert f → f.pc ≠ .write n b i victim

theorem insert_undivided {f g : InsertFrame} {rand : Nat}
    (whole : ∀ n b i victim, f.pc ≠ .write n b i victim)
    (stepped : (insert cfg .whole table f rand).2 = .inl g) (n b i : Nat) (victim : Bytes) :
    g.pc ≠ .write n b i victim := by
  cases pc : f.pc with
  | first | second | place =>
    simp only [insert,pc] at stepped
    repeat' split at stepped
    all_goals cases stepped
    all_goals simp [InsertFrame.goto]
  | flag | swap =>
    simp only [insert,pc] at stepped
    cases stepped
    simp [InsertFrame.goto]
  | write => exact absurd pc (whole _ _ _ _)

theorem undivided_step (undivided : s.Undivided)
    (moved : step cfg .whole s tid action = some t) : t.Undivided := by
  obtain ⟨others,-⟩ := step_other moved
  intro mover f n b i victim site
  by_cases same : mover = tid
  · subst same
    cases step_moved moved with
    | invoke idle call =>
      rw [goto_own] at site
      cases call with
      | insert key =>
        cases site
        intro write
        cases write
      | find key => cases site
      | remove key => cases site
    | @insert g here rand =>
      rw [settle_eq,goto_own] at site
      cases stepped : (insert cfg .whole s.table g rand).2 with
      | inl h =>
        rw [stepped] at site
        cases site
        have whole (n b i : Nat) (victim : Bytes) := undivided mover g n b i victim here
        exact insert_undivided whole stepped n b i victim
      | inr answer =>
        rw [stepped] at site
        cases site
    | find here rand | remove here rand =>
      rw [settle_eq,goto_own] at site
      generalize Prod.snd _ = out at site
      cases out <;> cases site
  · rw [others mover same] at site
    exact undivided mover f n b i victim site

theorem System.Undivided.intact (undivided : s.Undivided) (tid : Nat) :
    (s.control tid).Intact s.table := by
  cases site : s.control tid with
  | insert f =>
    cases pc : f.pc with
    | write n b i victim => exact absurd pc (undivided tid f n b i victim site)
    | _ => simp [Control.Intact,InsertPc.Intact,pc]
  | _ => trivial

def Action.Keeps : Action → Prop
  | .invoke (.remove _) => False
  | _ => True

instance : DecidablePred Action.Keeps
  | .invoke (.insert _) | .invoke (.find _) | .run _ => .isTrue trivial
  | .invoke (.remove _) => .isFalse id

structure System.Keeps (s : System) : Prop where
  control : ∀ tid f, s.control tid ≠ .remove f
  returned : ∀ x ∈ s.returned, ∀ key, x.2.1 ≠ .remove key

theorem keeps_step (keeps : s.Keeps) (only : action.Keeps)
    (moved : step cfg swap s tid action = some t) : t.Keeps := by
  obtain ⟨others,-⟩ := step_other moved
  have own : (∀ f, t.control tid ≠ .remove f) ∧ ∀ x ∈ t.returned, ∀ key, x.2.1 ≠ .remove key := by
    cases step_moved moved with
    | invoke idle call =>
      rw [goto_own]
      refine ⟨?_,keeps.returned⟩
      intro f site
      cases call with
      | insert key => cases site
      | find key => cases site
      | remove key => exact only
    | insert here rand | find here rand =>
      rw [settle_eq,goto_own]
      generalize Prod.snd _ = out
      cases out with
      | inl g => exact ⟨by simp [landed],keeps.returned⟩
      | inr answer =>
        refine ⟨by simp [landed],?_⟩
        intro x member key
        rcases List.mem_cons.mp member with rfl | old
        · simp
        · exact keeps.returned x old key
    | @remove f here rand => exact absurd here (keeps.control tid f)
  refine ⟨?_,own.2⟩
  intro mover f
  by_cases same : mover = tid
  · rw [same]
    exact own.1 f
  · rw [others mover same]
    exact keeps.control mover f

theorem System.Keeps.taken (keeps : s.Keeps) (label : Nat → Bytes → κ) : s.taken cfg label = 0 := by
  have none : Bag.removed s.events = 0 := by
    unfold Bag.removed System.events
    rw [List.filterMap_map]
    refine (congrArg _ (List.filterMap_eq_nil_iff.mpr ?_)).trans Multiset.coe_nil
    rintro ⟨tid,call,answer⟩ member
    cases call with
    | insert key => rfl
    | find key => rfl
    | remove key => exact absurd rfl (keeps.returned _ member key)
  rw [System.taken,none]
  rfl

/-- A kick loop has the fingerprint in hand. -/
def InHand (s : System) (fingerprint : Bytes) : Prop :=
  ∃ tid f, s.control tid = .insert f ∧ f.pc.kicking ≠ none ∧ f.fingerprint = fingerprint

structure Kept (cfg : Config) (s : System) : Prop where
  sound : Sound cfg s
  undivided : s.Undivided
  keeps : s.Keeps
  balanced : s.Accepted → s.Balanced cfg (classAt cfg.tableSize)

theorem kept_initial (cfg : Config) : Kept cfg (System.initial cfg) := by
  constructor
  · exact sound_initial cfg
  · intro tid f n b i victim site
    cases site
  · refine ⟨?_,?_⟩
    · intro tid f site
      cases site
    · intro x member
      cases member
  · exact fun _ => balanced_initial cfg

theorem hops_classAt (power : cfg.tableSize = 2 ^ e) : cfg.Hops (classAt cfg.tableSize) :=
  fun _ inside str => classAt_alternate power inside str

theorem kept_step (power : cfg.tableSize = 2 ^ e) (kept : Kept cfg s) (only : action.Keeps)
    (moved : step cfg .whole s tid action = some t) : Kept cfg t := by
  constructor
  · exact sound_step kept.sound moved
  · exact undivided_step kept.undivided moved
  · exact keeps_step kept.keeps only moved
  · intro accepted
    apply balanced_step (hops_classAt power) kept.sound (kept.undivided.intact tid) moved accepted
    exact kept.balanced (accepted_before moved accepted)

/-- The fingerprint of a key that was stored is in a bucket of the key or in hand. -/
theorem stored_somewhere (power : cfg.tableSize = 2 ^ e) (kept : Kept cfg s)
    (accepted : s.Accepted) (stored : (other,Bag.Op.insert key,true) ∈ s.returned) :
    Holds s.table (cfg.hash1 key) (cfg.md5Fingerprint key) ∨
      Holds s.table (cfg.hash2 key) (cfg.md5Fingerprint key) ∨
      InHand s (cfg.md5Fingerprint key) := by
  obtain ⟨n,rest⟩ := kept.sound.bounded
  have balances := kept.balanced accepted n rest
  rw [System.Balances,kept.keeps.taken,add_zero] at balances
  have put : cfg.keyLabel (classAt cfg.tableSize) key ∈ s.put cfg (classAt cfg.tableSize) := by
    apply Multiset.mem_map_of_mem
    apply List.mem_filterMap.mpr
    exact ⟨(.insert key,true),List.mem_map.mpr ⟨_,stored,rfl⟩,rfl⟩
  have there : cfg.keyLabel (classAt cfg.tableSize) key ∈
      labels cfg.tableSize (classAt cfg.tableSize) s.table.held +
        s.carried (classAt cfg.tableSize) n := by
    rw [balances]
    exact Multiset.mem_add.mpr (.inr put)
  rcases Multiset.mem_add.mp there with placed | carried
  · rw [← classes_eq,Config.keyLabel,mem_classes power (hash1_lt cfg key)] at placed
    obtain ⟨i,slot,here | next⟩ := placed
    · exact .inl ⟨i,slot,(SequentialFilter.held_eq_some.mp here).1⟩
    · exact .inr (.inl ⟨i,slot,(SequentialFilter.held_eq_some.mp next).1⟩)
  · obtain ⟨tid,-,has⟩ := Bag.mem_contents.mp carried
    cases site : s.control tid with
    | insert f =>
      rw [site] at has
      obtain ⟨b,kicking,hand⟩ := Option.bind_eq_some_iff.mp has
      unfold seen at hand
      split at hand
      · cases hand
      · have same := congrArg Prod.fst (Option.some.inj hand)
        exact .inr (.inr ⟨tid,f,site,by simp [kicking],same⟩)
    | _ =>
      rw [site] at has
      cases has

/-- The search of the thread is about to begin its scans while its fingerprint is nowhere
but in the hands of kick loops. -/
def Eludes (s : System) (tid : Nat) : Prop :=
  ∃ g, s.control tid = .find g ∧ g.second = false ∧ InHand s g.fingerprint ∧
    ¬Holds s.table g.hash1 g.fingerprint ∧ ¬Holds s.table g.hash2 g.fingerprint

/-- The fingerprint is in one slot of the bucket, and the swap takes it out of there for
another one. -/
def TakesOut (s : System) (mover : Nat) (action : Action) (b : Nat) (fingerprint : Bytes) : Prop :=
  ∃ f n rand, s.control mover = .insert f ∧ f.pc = .swap n b ∧ action = .run rand ∧
    f.fingerprint ≠ fingerprint ∧
    ∀ i < numItemsPerEntry, s.table.hashTable b i = fingerprint ↔ i = rand % numItemsPerEntry

/-- The search loses the race: its scans begin too late, or the bucket it has yet to scan
loses the fingerprint. -/
def Overtakes (tid mover : Nat) (action : Action) (s : System) : Prop :=
  mover = tid ∧ Eludes s tid ∨
    ∃ g, s.control tid = .find g ∧ g.second = true ∧ TakesOut s mover action g.hash2 g.fingerprint

theorem holds_write (apart : table.hashTable b i ≠ fingerprint) (str : Bytes)
    (holds : Holds table b' fingerprint) : Holds (table.write b i str) b' fingerprint := by
  obtain ⟨j,slot,here⟩ := holds
  refine ⟨j,slot,?_⟩
  have other : ¬(b' = b ∧ j = i) := by
    rintro ⟨rfl,rfl⟩
    exact apart here
  simpa [SequentialFilter.write,other] using here

theorem holds_fill (present : fingerprint ≠ []) (found : table.scan List.isEmpty b = some i)
    (str : Bytes) (holds : Holds table b' fingerprint) :
    Holds (table.write b i str) b' fingerprint := by
  obtain ⟨-,empty⟩ := SequentialFilter.scan_some found
  apply holds_write _ str holds
  rw [List.isEmpty_iff.mp empty]
  exact Ne.symm present

theorem holds_swap (slot : i < numItemsPerEntry) (str : Bytes)
    (stays : b = b' → str ≠ fingerprint →
      ¬∀ j < numItemsPerEntry, table.hashTable b j = fingerprint ↔ j = i)
    (holds : Holds table b' fingerprint) : Holds (table.write b i str) b' fingerprint := by
  by_cases here : table.hashTable b i = fingerprint
  · by_cases home : b = b'
    · subst home
      by_cases same : str = fingerprint
      · exact ⟨i,slot,by simp [SequentialFilter.write,same]⟩
      · -- another slot of the bucket has it
        have copies := stays rfl same
        push Not at copies
        obtain ⟨j,inside,⟨copy,apart⟩ | ⟨absent,rfl⟩⟩ := copies
        · exact ⟨j,inside,by simpa [SequentialFilter.write,apart] using copy⟩
        · exact absurd here absent
    · obtain ⟨j,inside,copy⟩ := holds
      exact ⟨j,inside,by simpa [SequentialFilter.write,Ne.symm home] using copy⟩
  · exact holds_write here str holds

/-- The bucket keeps its fingerprint unless a swap takes the last copy out. -/
theorem insert_keeps (present : fingerprint ≠ []) {f : InsertFrame}
    (site : s.control mover = .insert f) (undivided : s.Undivided) (rand : Nat)
    (stays : ¬TakesOut s mover (.run rand) b fingerprint) (holds : Holds s.table b fingerprint) :
    Holds (insert cfg .whole s.table f rand).1 b fingerprint := by
  cases pc : f.pc with
  | first | second =>
    simp only [insert,pc]
    split
    · exact holds_fill present (by assumption) _ holds
    · exact holds
  | flag =>
    simp only [insert,pc]
    exact holds
  | swap n b' =>
    simp only [insert,pc]
    apply holds_swap (Nat.mod_lt _ (by decide)) _ _ holds
    rintro rfl other only
    exact stays ⟨f,n,rand,site,pc,rfl,other,only⟩
  | write n b' i victim => exact absurd pc (undivided mover f n b' i victim site)
  | place n b' =>
    simp only [insert,pc]
    split
    · exact holds_fill present (by assumption) _ holds
    · split
      · exact holds
      · exact holds

theorem step_holds (present : fingerprint ≠ []) (kept : Kept cfg s)
    (moved : step cfg .whole s mover action = some t)
    (stays : ¬TakesOut s mover action b fingerprint) (holds : Holds s.table b fingerprint) :
    Holds t.table b fingerprint := by
  cases step_moved moved with
  | invoke idle call => exact holds
  | insert site rand =>
    rw [settle_eq]
    exact insert_keeps present site kept.undivided rand stays holds
  | find site rand =>
    rw [settle_eq]
    show Holds (find s.table _).1 b fingerprint
    rw [find_table]
    exact holds
  | @remove f site rand => exact absurd site (kept.keeps.control mover f)

/-- The search of the key has answered true, or its fingerprint is where it will look. -/
def Pursues (cfg : Config) (tid : Nat) (key : Bytes) (s : System) : Prop :=
  match s.control tid with
  | .idle => s.returned.head? = some (tid,.find key,true)
  | .find g => g.Proper cfg ∧ g.key = key ∧ (g.second = true → Holds s.table g.hash2 g.fingerprint)
  | _ => False

theorem pursues_other (away : mover ≠ tid) (kept : Kept cfg s) {g : LookFrame}
    (site : s.control tid = .find g) (moved : step cfg .whole s mover action = some t)
    (stays : ¬Overtakes tid mover action s) (pursues : Pursues cfg tid key s) :
    Pursues cfg tid key t := by
  obtain ⟨others,-⟩ := step_other moved
  rw [Pursues,site] at pursues
  obtain ⟨proper,same,holds⟩ := pursues
  rw [Pursues,others tid (Ne.symm away),site]
  refine ⟨proper,same,?_⟩
  intro second
  apply step_holds _ kept moved _ (holds second)
  · rw [proper.fingerprint]
    exact cfg.nonempty g.key
  · exact fun out => stays (.inr ⟨g,site,second,out⟩)

theorem pursues_own (power : cfg.tableSize = 2 ^ e) (kept : Kept cfg s) (accepted : s.Accepted)
    {g : LookFrame} (site : s.control tid = .find g)
    (stored : (other,Bag.Op.insert key,true) ∈ s.returned)
    (moved : step cfg .whole s tid action = some t) (stays : ¬Overtakes tid tid action s)
    (pursues : Pursues cfg tid key s) : Pursues cfg tid key t := by
  rw [Pursues,site] at pursues
  obtain ⟨proper,rfl,holds⟩ := pursues
  cases step_moved moved with
  | invoke idle call =>
    rw [site] at idle
    cases idle
  | insert here rand | remove here rand =>
    rw [site] at here
    cases here
  | @find f here rand =>
    rw [site] at here
    cases here
    rw [Pursues,settle_eq,goto_own]
    cases found : s.table.scan (· = g.fingerprint) g.bucket with
    | some i =>
      rw [find,found]
      rfl
    | none =>
      have absent := (scan_holds s.table g.bucket g.fingerprint).mp found
      cases second : g.second with
      | true =>
        rw [LookFrame.bucket,second] at absent
        exact absurd (holds second) absent
      | false =>
        rw [LookFrame.bucket,second] at absent
        rw [find,found]
        simp only [LookFrame.miss,second,landed]
        refine ⟨⟨proper.fingerprint,proper.first,proper.second⟩,rfl,fun _ => ?_⟩
        by_contra missing
        rcases stored_somewhere power kept accepted stored with here | there | hand
        · apply absent
          rw [proper.fingerprint,proper.first]
          exact here
        · apply missing
          show Holds s.table g.hash2 g.fingerprint
          rw [proper.fingerprint,proper.second]
          exact there
        · rw [← proper.fingerprint] at hand
          exact stays (.inl ⟨rfl,g,site,second,hand,absent,missing⟩)

def Control.Finding : Control → Prop
  | .find _ => True
  | _ => False

instance : DecidablePred Control.Finding
  | .find _ => .isTrue trivial
  | .idle | .insert _ | .remove _ => .isFalse id

theorem finding_frame {control : Control} (finding : control.Finding) : ∃ g, control = .find g := by
  cases control with
  | find g => exact ⟨g,rfl⟩
  | _ => exact absurd finding id

/-- A search that begins after its key was stored and is not overtaken answers true. -/
theorem find_answers_true (power : cfg.tableSize = 2 ^ e)
    (before : Run cfg .whole (fun _ action _ => action.Keeps) (System.initial cfg) s)
    (stored : (other,Bag.Op.insert key,true) ∈ s.returned)
    (begins : step cfg .whole s tid (.invoke (.find key)) = some t)
    (during : Run cfg .whole (fun mover action u =>
      (u.control tid).Finding ∧ action.Keeps ∧ ¬Overtakes tid mover action u) t v)
    (ends : v.control tid = .idle) (accepted : v.Accepted) :
    v.returned.head? = some (tid,.find key,true) := by
  have kept : Kept cfg s := by
    refine Transition.run_invariant (Kept cfg) ?_ (kept_initial cfg) before
    rintro s t kept ⟨tid,action,only,moved⟩
    exact kept_step power kept only moved
  have only : (Action.invoke (.find key)).Keeps := trivial
  have sought := kept_step power kept only begins
  have pursues : Pursues cfg tid key t := by
    cases step_moved begins with
    | invoke idle call =>
      rw [Pursues,goto_own]
      refine ⟨look_proper cfg key,rfl,fun second => ?_⟩
      cases second
  have last : Kept cfg v ∧ (other,Bag.Op.insert key,true) ∈ v.returned ∧
      (v.Accepted → Pursues cfg tid key v) := by
    refine Transition.run_invariant (fun u => Kept cfg u ∧
      (other,Bag.Op.insert key,true) ∈ u.returned ∧ (u.Accepted → Pursues cfg tid key u)) ?_
      ⟨sought,(step_other begins).2.subset stored,fun _ => pursues⟩ during
    rintro u w ⟨kept,stored,pursues⟩ ⟨mover,action,⟨finding,only,stays⟩,moved⟩
    refine ⟨kept_step power kept only moved,(step_other moved).2.subset stored,fun accepted => ?_⟩
    have old := accepted_before moved accepted
    obtain ⟨g,site⟩ := finding_frame finding
    by_cases own : mover = tid
    · subst own
      exact pursues_own power kept old site stored moved stays (pursues old)
    · exact pursues_other own kept site moved stays (pursues old)
  have answered := last.2.2 accepted
  rw [Pursues,ends] at answered
  exact answered

/-- Where a schedule from a state ends. -/
def resume (cfg : Config) (swap : Swap) (condition : Nat → Action → System → Prop)
    [∀ tid action s, Decidable (condition tid action s)] (schedule : List (Nat × Action))
    (s : System) : System :=
  (executeWhile cfg swap condition schedule s).getD s

theorem resume_run {condition : Nat → Action → System → Prop}
    [∀ tid action s, Decidable (condition tid action s)] (schedule : List (Nat × Action))
    (s : System) (possible : (executeWhile cfg swap condition schedule s).isSome = true) :
    Run cfg swap condition s (resume cfg swap condition schedule s) := by
  obtain ⟨t,executed⟩ := Option.isSome_iff_exists.mp possible
  rw [resume,executed]
  exact executeWhile_run schedule s t executed

theorem resume_rest {condition : Nat → Action → System → Prop}
    [∀ tid action s, Decidable (condition tid action s)] (schedule : List (Nat × Action))
    (threads : ∀ x ∈ schedule, x.1 < n) (rest : ∀ tid, n ≤ tid → s.control tid = .idle) :
    ∀ tid, n ≤ tid → (resume cfg swap condition schedule s).control tid = .idle := by
  intro tid beyond
  rw [resume]
  cases executed : executeWhile cfg swap condition schedule s with
  | none => exact rest tid beyond
  | some t =>
    rw [Option.getD_some,executeWhile_other schedule s t executed,rest tid beyond]
    intro x member same
    have := threads x member
    omega

/-- The fingerprint of the search is in the bucket that it is about to scan first. -/
def Control.Ahead (table : Table) : Control → Prop
  | .find g => g.second = false ∧ Holds table g.hash1 g.fingerprint
  | _ => False

instance (table : Table) : DecidablePred (Control.Ahead table)
  | .find g => inferInstanceAs (Decidable (g.second = false ∧ Holds table g.hash1 g.fingerprint))
  | .idle | .insert _ | .remove _ => .isFalse id

theorem ahead_finding (ahead : (s.control tid).Ahead s.table) : (s.control tid).Finding := by
  cases site : s.control tid with
  | find g => trivial
  | _ =>
    rw [site] at ahead
    exact ahead

theorem ahead_stays (ahead : (s.control tid).Ahead s.table) : ¬Overtakes tid mover action s := by
  rintro (⟨-,g,site,-,-,absent,-⟩ | ⟨g,site,second,-⟩)
  · rw [site] at ahead
    exact absent ahead.2
  · rw [site] at ahead
    exact absurd (ahead.1.symm.trans second) Bool.false_ne_true

/-- Four `a` fill bucket 0. -/
def filledState : System :=
  endState sampleConfig .whole (fun _ action _ => action.Keeps)
    (inserts 0 keyA 1 ++ inserts 0 keyA 1 ++ inserts 0 keyA 1 ++ inserts 0 keyA 1)

def soughtState : System := filledState.goto 2 (invoke sampleConfig (.find keyA))

/-- Thread 1 kicks one of them to bucket 1, and thread 2 finds another one. -/
def foundState : System :=
  resume sampleConfig .whole (fun _ action u => action.Keeps ∧ (u.control 2).Ahead u.table)
    (inserts 1 keyF 5 ++ runs 2 1) soughtState

theorem find_beside_kick : foundState.returned.head? = some (2,.find keyA,true) := by
  have during : Run sampleConfig .whole
      (fun _ action u => action.Keeps ∧ (u.control 2).Ahead u.table) soughtState foundState :=
    resume_run _ _ (by decide +kernel)
  have weak : Run sampleConfig .whole (fun mover action u =>
      (u.control 2).Finding ∧ action.Keeps ∧ ¬Overtakes 2 mover action u)
      soughtState foundState := by
    refine Relation.ReflTransGen.mono ?_ _ _ during
    rintro s t ⟨mover,action,⟨only,ahead⟩,moved⟩
    exact ⟨mover,action,⟨ahead_finding ahead,only,ahead_stays ahead⟩,moved⟩
  have idle : filledState.control 2 = .idle := by decide +kernel
  have stored : (0,Bag.Op.insert keyA,true) ∈ filledState.returned := by decide +kernel
  exact find_answers_true (e := 1) rfl (endState_run _ (by decide +kernel)) stored
    (step_invoke idle _) weak (by decide +kernel) (by decide +kernel)

/-- One `a` and three `f` fill bucket 0, and thread 1 has the `a` in hand. -/
def heldSchedule : List (Nat × Action) :=
  inserts 0 keyA 1 ++ inserts 0 keyF 1 ++ inserts 0 keyF 1 ++ inserts 0 keyF 1 ++ inserts 1 keyF 4

def heldState : System := endState sampleConfig .whole (fun _ action _ => action.Keeps) heldSchedule

def lookingState : System := heldState.goto 2 (invoke sampleConfig (.find keyA))

def missedState : System :=
  resume sampleConfig .whole (fun _ action u => (u.control 2).Finding ∧ action.Keeps) (runs 2 2)
    lookingState

def placedState : System :=
  resume sampleConfig .whole (fun _ action _ => action.Keeps) (runs 1 1) missedState

theorem find_misses : ¬∀ (cfg : Config) (tid other : Nat) (key : Bytes) (s t v w : System),
    (∃ e, cfg.tableSize = 2 ^ e) →
    Run cfg .whole (fun _ action _ => action.Keeps) (System.initial cfg) s →
    (other,.insert key,true) ∈ s.returned →
    step cfg .whole s tid (.invoke (.find key)) = some t →
    Run cfg .whole (fun _ action u => (u.control tid).Finding ∧ action.Keeps) t v →
    v.control tid = .idle →
    Run cfg .whole (fun _ action _ => action.Keeps) v w →
    (∀ tid, w.control tid = .idle) → w.Accepted →
    v.returned.head? = some (tid,.find key,true) := by
  intro finds
  have idle : heldState.control 2 = .idle := by decide +kernel
  have held : ∀ tid, 3 ≤ tid → heldState.control tid = .idle :=
    resume_rest heldSchedule (by decide +kernel) fun _ _ => rfl
  have looking : ∀ tid, 3 ≤ tid → lookingState.control tid = .idle := by
    intro tid beyond
    rw [lookingState,goto_other heldState _ (by omega)]
    exact held tid beyond
  have missed : ∀ tid, 3 ≤ tid → missedState.control tid = .idle := by
    rw [missedState]
    exact resume_rest (runs 2 2) (by decide +kernel) looking
  have placed : ∀ tid, 3 ≤ tid → placedState.control tid = .idle := by
    rw [placedState]
    exact resume_rest (runs 1 1) (by decide +kernel) missed
  have ended : ∀ tid, placedState.control tid = .idle := by
    intro tid
    by_cases few : tid < 3
    · have three : ∀ tid < 3, placedState.control tid = .idle := by decide +kernel
      exact three tid few
    · exact placed tid (Nat.le_of_not_lt few)
  have found := finds sampleConfig 2 0 keyA heldState lookingState missedState placedState ⟨1,rfl⟩
    (endState_run _ (by decide +kernel)) (by decide +kernel) (step_invoke idle _)
    (resume_run _ _ (by decide +kernel)) (by decide +kernel) (resume_run _ _ (by decide +kernel))
    ended (by decide +kernel)
  have answered : missedState.returned.head? = some (2,.find keyA,false) := by decide +kernel
  rw [answered] at found
  cases found

end CuckooFilter.FineGrained
