import CuckooFilter.LockFreeProgress
import CuckooFilter.LockFreeSoloInsert

/-! The filter in the hands of one thread. Its operations do six things to a clean table;
a property of the memory that survives each of them holds whenever the thread is between
two operations. -/
namespace CuckooFilter.LockFree

variable {cfg : Config} {tid : Nat} {s t : System} {m n : Memory} {held : Memory → Prop}

/-- An insertion is about to put its entry, which no slot has, into an empty slot. -/
structure Placing (cfg : Config) (m : Memory) (f : InsertFrame) (second : Bool) (i : Nat)
    (word : TablePointer) : Prop where
  keyed : (Control.insert f).Keyed cfg
  inside : i < numItemsPerEntry
  empty : getRealPointer (m.hashTable (f.bucket second) i) = 0
  real : getRealPointer word = f.newEntry
  unmarked : getMarked word = false
  present : f.newEntry ≠ 0
  string : m.heap f.newEntry = some f.fingerprint
  absent : ¬m.Holds cfg f.newEntry
  unstored : ∀ x ∈ m.stored, x.entry ≠ f.newEntry

/-- A removal is about to empty the slot that its search has named. -/
structure Taking (cfg : Config) (m : Memory) (f : RemoveFrame) (location : Nat)
    (word : TablePointer) : Prop where
  bucket : f.hashVal location = (FindFrame.enter cfg f.key).hash1 ∨
    f.hashVal location = (FindFrame.enter cfg f.key).hash2
  null : getRealPointer word = 0
  unmarked : getMarked word = false
  hits : Hits m (cfg.md5Fingerprint f.key) (f.hashVal location) (location % numItemsPerEntry)

/-- A property of the memory between the operations of thread `tid`. -/
structure Upheld (cfg : Config) (tid : Nat) (held : Memory → Prop) : Prop where
  clean : ∀ m, held m → m.Clean cfg
  steady : ∀ m n, held m → Steady m n → n.hashTable = m.hashTable → held n
  shifted : ∀ m n b i, held m → Steady m n → Shifted cfg m n b i → held n
  allocate : ∀ m address str, held m → m.Fresh address →
    (∀ b i, getRealPointer (m.hashTable b i) ≠ 0 →
      m.heap (getRealPointer (m.hashTable b i)) ≠ none) → held (m.allocate address str)
  found : ∀ m key location word, held m → Found m (.enter cfg key) (.returned (location,word)) →
    held (m.respond tid (.find key) (.location location))
  missing : ∀ m key word, held m →
    Found m (.enter cfg key) (.returned (2 * numItemsPerEntry,word)) →
    held (m.respond tid (.remove key) (.truth false))
  refused : ∀ m key, held m → held (m.respond tid (.insert key) (.truth false))
  placed : ∀ m f second i word, held m → Placing cfg m f second i word →
    held (f.placed tid m second i word)
  taken : ∀ m f location word, held m → Taking cfg m f location word →
    held (f.taken tid m location (m.hashTable (f.hashVal location) (location % numItemsPerEntry))
      word)

/-- A location just returned names a slot with the fingerprint. -/
def Memory.Named (cfg : Config) (m : Memory) : Prop :=
  ∀ tid key location, m.returned.head? = some (tid,.find key,.location location) →
    location < 2 * numItemsPerEntry →
    m.fingerprint ((FindFrame.enter cfg key).bucketOf location) (location % numItemsPerEntry) =
      some (cfg.md5Fingerprint key)

/-- The operation is over and the property holds, or it cannot go on: the process has
aborted or memory is exhausted. -/
def Completes (cfg : Config) (tid : Nat) (held : Memory → Prop) (t : System) : Prop :=
  t.memory.aborted = true ∨
  (∃ f, t.control tid = .insert f ∧ f.pc = .allocate ∧ ∀ address, ¬t.memory.Fresh address) ∨
  t.control tid = .idle ∧ held t.memory ∧ t.memory.Named cfg

theorem completes_setting (cfg : Config) (tid : Nat) (held : Memory → Prop) :
    Setting cfg tid (Reachable cfg) (Completes cfg tid held) :=
  Aborting.reachable fun _ aborted => .inl aborted

theorem completes_idle (holds : held m) (named : m.Named cfg) :
    Completes cfg tid held (s.put tid (m,.idle)) :=
  .inr (.inr ⟨put_control s tid _,holds,named⟩)

theorem bucketOf_lt (cfg : Config) (key : Bytes) (location : Nat) :
    (FindFrame.enter cfg key).bucketOf location < cfg.tableSize := by
  unfold FindFrame.bucketOf
  split
  · exact Nat.mod_lt _ cfg.positive
  · exact getNextHashIndex_lt cfg.positive _ _

theorem find_completes (upheld : Upheld cfg tid held) (holds : held m) (key : Bytes)
    (reachable : Reachable cfg (s.put tid (m,.find key (.enter cfg key)))) :
    Alone cfg tid (Completes cfg tid held) (s.put tid (m,.find key (.enter cfg key))) := by
  have clean := upheld.clean m holds
  refine Alone.call (findSite cfg tid key) (completes_setting cfg tid held) reachable
    ((find_clean clean (.refl m) key).steady (find_steady cfg tid)) ?_
  rintro n flow ⟨⟨alike,found⟩,steady⟩ _
  obtain ⟨location,word,rfl,outcome⟩ := found.returns
  have still := upheld.steady m n holds steady alike.table
  refine .reached (completes_idle (upheld.found n key location word still (found.alike alike)) ?_)
  intro other key' location' head inside
  cases head
  rcases outcome with rfl | ⟨-,hits,-⟩
  · exact absurd inside (Nat.lt_irrefl _)
  · have slot : cfg.Slot ((FindFrame.enter cfg key).bucketOf location)
        (location % numItemsPerEntry) := ⟨bucketOf_lt cfg key location,Nat.mod_lt _ (by decide)⟩
    have same : (n.respond tid (.find key) (.location location)).fingerprint = m.fingerprint := by
      funext b i
      unfold Memory.fingerprint
      rw [← alike.str,← alike.table]
      rfl
    rw [same]
    exact (clean.hits slot).mp hits

theorem remove_completes (upheld : Upheld cfg tid held) (holds : held m) (key : Bytes)
    (reachable : Reachable cfg (s.put tid (m,.remove (.enter cfg key)))) :
    Alone cfg tid (Completes cfg tid held) (s.put tid (m,.remove (.enter cfg key))) := by
  have setting := completes_setting cfg tid held
  refine Alone.call (removeSite cfg tid (.enter cfg key)) setting reachable
    ((find_clean (upheld.clean m holds) (.refl m) key).steady (find_steady cfg tid)) ?_
  rintro n flow ⟨⟨alike,found⟩,steady⟩ reached
  obtain ⟨location,word,rfl,outcome⟩ := found.returns
  have still := upheld.steady m n holds steady alike.table
  rcases outcome with rfl | ⟨inside,hits,read⟩
  · exact .reached (completes_idle (upheld.missing n key word still (found.alike alike))
      (by simp [Memory.Named,Memory.respond]))
  · have goes : (removeSite cfg tid (.enter cfg key)).land n (.returned (location,word)) =
        (n,.remove ((RemoveFrame.enter cfg key).goto (.cas location word))) :=
      if_neg (by omega)
    rw [goes] at reached ⊢
    have here : n.hashTable ((RemoveFrame.enter cfg key).hashVal location)
        (location % numItemsPerEntry) = word := by
      rw [alike.table,read]
      rfl
    have hits' : Hits n (cfg.md5Fingerprint key) ((RemoveFrame.enter cfg key).hashVal location)
        (location % numItemsPerEntry) := by
      simp only [Hits,alike.table,alike.str] at hits ⊢
      exact hits
    obtain ⟨empty,created⟩ := createPointer_exists (getCounter_le word) 0 false
    refine Alone.step setting reached (determined_cas _ _ _) (advance_take here created) ?_
    intro _
    refine .reached (completes_idle ?_ (by simp [Memory.Named,RemoveFrame.taken,Memory.respond]))
    rw [← here] at created ⊢
    refine upheld.taken n (.enter cfg key) location empty still ⟨?_,createPointer_real created null_fits,
      createPointer_marked created null_fits,hits'⟩
    unfold RemoveFrame.hashVal
    split
    · exact .inl rfl
    · exact .inr rfl

theorem home_placing {f : InsertFrame} (reachable : Reachable cfg (s.put tid (m,.insert f.home)))
    (inside : i < numItemsPerEntry) (empty : getRealPointer (m.hashTable (f.bucket second) i) = 0)
    (created : createPointer (getCounter (m.hashTable (f.bucket second) i)) f.newEntry false =
      some word) : Placing cfg m f second i word := by
  have sound := reachable_sound reachable
  have keyed := sound.keyed tid
  have own : ((s.put tid (m,.insert f.home)).control tid).unstored? = some f.newEntry := by
    rw [put_control]
    rfl
  have alone := sound.unshared tid f.newEntry own
  have fits := sound.owned tid f.newEntry own
  have string := sound.string tid f.home (put_control s tid _) (by simp [InsertFrame.goto])
  rw [put_control] at keyed
  refine ⟨keyed,inside,empty,createPointer_real created fits.2.1,
    createPointer_marked created fits.2.1,fits.1,string,?_,alone.stored⟩
  rintro ⟨b,i,-,here⟩
  exact alone.slots b i here

theorem inserting_completes (upheld : Upheld cfg tid held) (s : System) {f : InsertFrame}
    (first : f.hash1 < cfg.tableSize) :
    Inserting cfg tid s f (Reachable cfg) (Completes cfg tid held) held where
  setting := completes_setting cfg tid held
  first := first
  unmarked m holds := (upheld.clean m holds).unmarked
  steady := upheld.steady
  shifted m n _ _ holds steady _ _ _ shifted _ := upheld.shifted m n _ _ holds steady shifted
  stored m second i word holds reachable inside empty created :=
    completes_idle (upheld.placed m f second i word holds (home_placing reachable inside empty created))
      (by simp [Memory.Named,InsertFrame.placed,Memory.respond])
  refused m holds _ _ :=
    completes_idle (upheld.refused m f.key holds) (by simp [Memory.Named,Memory.respond])

theorem insert_completes (upheld : Upheld cfg tid held) (holds : held m) (key : Bytes)
    (reachable : Reachable cfg (s.put tid (m,.insert (.enter cfg key)))) :
    Alone cfg tid (Completes cfg tid held) (s.put tid (m,.insert (.enter cfg key))) := by
  refine allocate_alone (f := .enter cfg key) (completes_setting cfg tid held) reachable ?_ ?_
  · intro exhausted
    exact .inr (.inl ⟨_,put_control s tid _,rfl,exhausted⟩)
  · intro address fresh
    have known := (reachable_sound reachable).slots
    exact (inserting_completes upheld s (Nat.mod_lt _ cfg.positive)).alone
      (upheld.allocate m address _ holds fresh known)

/-- The thread is between two operations, or inside one that it completes. -/
structure InHand (cfg : Config) (tid : Nat) (held : Memory → Prop) (s : System) : Prop where
  reachable : Reachable cfg s
  aborted : s.memory.aborted = true → s.control tid ≠ .idle
  phase : s.control tid = .idle ∧ held s.memory ∧ s.memory.Named cfg ∨
    Alone cfg tid (Completes cfg tid held) s

theorem inHand_initial (cfg : Config) (tid : Nat) (start : held Memory.initial) :
    InHand cfg tid held System.initial := by
  refine ⟨.refl,by simp [System.initial,Memory.initial],.inl ⟨rfl,start,?_⟩⟩
  simp [Memory.Named,System.initial,Memory.initial]

theorem idle_step (moved : StepBy cfg tid s t) (idle : s.control tid = .idle) :
    ∃ call, t = s.put tid (invoke cfg tid s.memory call) := by
  obtain ⟨action,moved⟩ := moved
  unfold step at moved
  split at moved
  · contradiction
  · split at moved
    · contradiction
    · rename_i memory control stepped
      cases moved
      rw [idle] at stepped
      cases action with
      | invoke call =>
        simp only [threadStep,if_true,Option.some.injEq] at stepped
        exact ⟨call,by rw [stepped]; rfl⟩
      | _ => simp [threadStep] at stepped

theorem completes_step (completes : Completes cfg tid held s) (moved : StepBy cfg tid s t) :
    s.control tid = .idle ∧ held s.memory := by
  by_cases idle : s.control tid = .idle
  · rcases completes with aborted | ⟨f,site,-⟩ | ⟨-,holds,-⟩
    · obtain ⟨action,moved⟩ := moved
      simp [step,aborted] at moved
    · rw [idle] at site
      contradiction
    · exact ⟨idle,holds⟩
  · obtain ⟨-,live,-⟩ := soloStep_iff.mp ⟨idle,moved⟩
    rcases completes with aborted | ⟨f,site,pc,exhausted⟩ | ⟨rests,-⟩
    · rw [live] at aborted
      contradiction
    · have step : SoloStep cfg tid s t := ⟨idle,moved⟩
      rw [← put_self s tid,site,← InsertFrame.goto_self pc] at step
      obtain ⟨-,address,fresh,-⟩ := allocate_moves.mp step
      exact absurd fresh (exhausted address)
    · exact absurd rests idle

theorem inHand_call (upheld : Upheld cfg tid held) (hand : InHand cfg tid held s)
    (idle : s.control tid = .idle) (holds : held s.memory) (moved : StepBy cfg tid s t) :
    InHand cfg tid held t := by
  have reachable := hand.reachable.step moved
  obtain ⟨call,rfl⟩ := idle_step moved idle
  refine ⟨reachable,?_,.inr ?_⟩
  · rw [put_memory]
    have same : (invoke cfg tid s.memory call).1.aborted = s.memory.aborted := by
      cases call <;> rfl
    rw [same]
    exact fun aborted => absurd idle (hand.aborted aborted)
  · have still : held (s.memory.clearHazard tid) :=
      upheld.steady _ _ holds ⟨⟨rfl,rfl,rfl,rfl⟩,rfl⟩ rfl
    cases call with
    | insert key => exact insert_completes upheld still key reachable
    | find key => exact find_completes upheld still key reachable
    | remove key => exact remove_completes upheld still key reachable

theorem inHand_step (upheld : Upheld cfg tid held) (hand : InHand cfg tid held s)
    (moved : StepBy cfg tid s t) : InHand cfg tid held t := by
  rcases hand.phase with ⟨idle,holds,-⟩ | alone
  · exact inHand_call upheld hand idle holds moved
  · cases alone with
    | reached here =>
      obtain ⟨idle,holds⟩ := completes_step here moved
      exact inHand_call upheld hand idle holds moved
    | later live all =>
      obtain ⟨u,busy,-⟩ := live
      have step : SoloStep cfg tid s t := ⟨busy,moved⟩
      exact ⟨hand.reachable.step moved,solo_aborts step,.inr (all t step)⟩

theorem run_inHand (upheld : Upheld cfg tid held) (start : held Memory.initial)
    (run : Relation.ReflTransGen (StepBy cfg tid) System.initial s) : InHand cfg tid held s :=
  Transition.run_invariant (InHand cfg tid held)
    (fun _ _ hand moved => inHand_step upheld hand moved) (inHand_initial cfg tid start) run

theorem idle_upheld (upheld : Upheld cfg tid held) (start : held Memory.initial)
    (run : Relation.ReflTransGen (StepBy cfg tid) System.initial s)
    (idle : s.control tid = .idle) : held s.memory ∧ s.memory.Named cfg := by
  have hand := run_inHand upheld start run
  rcases hand.phase with ⟨-,both⟩ | alone
  · exact both
  · cases alone with
    | reached here =>
      rcases here with aborted | ⟨f,site,-⟩ | ⟨-,both⟩
      · exact absurd idle (hand.aborted aborted)
      · rw [idle] at site
        contradiction
      · exact both
    | later live =>
      obtain ⟨u,busy,-⟩ := live
      exact absurd idle busy

theorem single_reachable (run : Relation.ReflTransGen (StepBy cfg tid) System.initial s) :
    Reachable cfg s := by
  refine Relation.ReflTransGen.mono ?_ _ _ run
  exact fun _ _ moved => ⟨tid,trivial,moved⟩

end CuckooFilter.LockFree
