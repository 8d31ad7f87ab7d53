import CuckooFilter.FineGrained

/-! Steps of the machine with stripe mutexes by what their thread was doing, and what holds
of the frames of running operations. -/
namespace CuckooFilter.FineGrained

variable {cfg : Config} {swap : Swap} {s t : System} {table : Table} {f : InsertFrame} {tid : Nat}

/-- The bucket to which a kick loop past its first swap takes its fingerprint. -/
def InsertPc.kicking : InsertPc → Option Nat
  | .swap (_ + 1) replaceHash | .write (_ + 1) replaceHash _ _ | .place _ replaceHash =>
    some replaceHash
  | _ => none

/-- What holds of a running insertion. -/
structure InsertFrame.Proper (cfg : Config) (f : InsertFrame) : Prop where
  first : f.hash1 = cfg.hash1 f.key
  second : f.hash2 = cfg.hash2 f.key
  own : f.pc.kicking = none → f.fingerprint = cfg.md5Fingerprint f.key
  swap : ∀ n b, f.pc = .swap n b → b < cfg.tableSize ∧ (n = 0 → b = f.hash1 ∨ b = f.hash2)
  write : ∀ n b i victim, f.pc = .write n b i victim →
    b < cfg.tableSize ∧ i < numItemsPerEntry ∧ (n = 0 → b = f.hash1 ∨ b = f.hash2)
  place : ∀ n b, f.pc = .place n b → b < cfg.tableSize

structure LookFrame.Proper (cfg : Config) (f : LookFrame) : Prop where
  fingerprint : f.fingerprint = cfg.md5Fingerprint f.key
  first : f.hash1 = cfg.hash1 f.key
  second : f.hash2 = cfg.hash2 f.key

theorem hash1_lt (cfg : Config) (key : Bytes) : cfg.hash1 key < cfg.tableSize :=
  Nat.mod_lt _ cfg.positive

theorem hash2_lt (cfg : Config) (key : Bytes) : cfg.hash2 key < cfg.tableSize :=
  getNextHashIndex_lt cfg.positive _ _

theorem Config.nonempty (cfg : Config) (key : Bytes) : cfg.md5Fingerprint key ≠ [] := by
  intro empty
  have length := cfg.digest key
  simp [empty] at length

theorem enter_proper (cfg : Config) (key : Bytes) : (InsertFrame.enter cfg key).Proper cfg := by
  constructor
  · rfl
  · rfl
  · exact fun _ => rfl
  · intro n b pc
    cases pc
  · intro n b i victim pc
    cases pc
  · intro n b pc
    cases pc

theorem look_proper (cfg : Config) (key : Bytes) : (LookFrame.enter cfg key).Proper cfg :=
  ⟨rfl,rfl,rfl⟩

theorem InsertFrame.Proper.first_lt (proper : f.Proper cfg) : f.hash1 < cfg.tableSize := by
  rw [proper.first]
  exact hash1_lt cfg f.key

theorem InsertFrame.Proper.second_lt (proper : f.Proper cfg) : f.hash2 < cfg.tableSize := by
  rw [proper.second]
  exact hash2_lt cfg f.key

theorem swapped_proper (proper : f.Proper cfg) (n b i : Nat) (victim : Bytes) {g : InsertFrame}
    (stepped : (f.swapped cfg table n b i victim).2 = .inl g) : g.Proper cfg := by
  cases stepped
  constructor
  · exact proper.first
  · exact proper.second
  · intro early
    cases early
  · intro m b' pc
    cases pc
  · intro m b' j other pc
    cases pc
  · intro m b' pc
    cases pc
    exact getNextHashIndex_lt cfg.positive _ _

theorem insert_proper (proper : f.Proper cfg) {rand : Nat} {g : InsertFrame}
    (stepped : (insert cfg swap table f rand).2 = .inl g) : g.Proper cfg := by
  cases pc : f.pc with
  | first =>
    have own := proper.own (by rw [pc]; rfl)
    simp only [insert,pc] at stepped
    split at stepped
    · cases stepped
    · cases stepped
      exact ⟨proper.first,proper.second,fun _ => own,by simp [InsertFrame.goto],
        by simp [InsertFrame.goto],by simp [InsertFrame.goto]⟩
  | second =>
    have own := proper.own (by rw [pc]; rfl)
    simp only [insert,pc] at stepped
    split at stepped
    · cases stepped
    · cases stepped
      exact ⟨proper.first,proper.second,fun _ => own,by simp [InsertFrame.goto],
        by simp [InsertFrame.goto],by simp [InsertFrame.goto]⟩
  | flag =>
    have own := proper.own (by rw [pc]; rfl)
    simp only [insert,pc] at stepped
    cases stepped
    refine ⟨proper.first,proper.second,fun _ => own,?_,by simp [InsertFrame.goto],
      by simp [InsertFrame.goto]⟩
    intro n b site
    cases site
    split
    · exact ⟨proper.first_lt,fun _ => .inl rfl⟩
    · exact ⟨proper.second_lt,fun _ => .inr rfl⟩
  | swap n b =>
    obtain ⟨inside,start⟩ := proper.swap n b pc
    cases swap with
    | whole =>
      simp only [insert,pc] at stepped
      exact swapped_proper proper _ _ _ _ stepped
    | split =>
      simp only [insert,pc] at stepped
      cases stepped
      refine ⟨proper.first,proper.second,?_,by simp [InsertFrame.goto],?_,
        by simp [InsertFrame.goto]⟩
      · intro early
        refine proper.own ?_
        rw [pc]
        cases n with
        | zero => rfl
        | succ n => cases early
      · intro m b' i victim site
        cases site
        exact ⟨inside,Nat.mod_lt _ (by decide),start⟩
  | write n b i victim =>
    simp only [insert,pc] at stepped
    exact swapped_proper proper _ _ _ _ stepped
  | place n b =>
    have inside := proper.place n b pc
    simp only [insert,pc] at stepped
    split at stepped
    · cases stepped
    · split at stepped
      · cases stepped
        refine ⟨proper.first,proper.second,?_,?_,by simp [InsertFrame.goto],
          by simp [InsertFrame.goto]⟩
        · intro early
          cases early
        · intro m b' site
          cases site
          exact ⟨inside,fun zero => absurd zero (Nat.succ_ne_zero n)⟩
      · cases stepped

theorem insert_tableSize (cfg : Config) (swap : Swap) (table : Table) (f : InsertFrame)
    (rand : Nat) :
    (insert cfg swap table f rand).1.tableSize = table.tableSize := by
  unfold insert InsertFrame.swapped
  cases swap <;> repeat' split
  all_goals rfl

theorem find_table (table : Table) (f : LookFrame) : (find table f).1 = table := by
  unfold find
  split
  · rfl
  · rfl

theorem remove_tableSize (table : Table) (f : LookFrame) :
    (remove table f).1.tableSize = table.tableSize := by
  unfold remove
  split
  · rfl
  · rfl

theorem LookFrame.Proper.bucket_lt {f : LookFrame} (proper : f.Proper cfg) :
    f.bucket < cfg.tableSize := by
  unfold LookFrame.bucket
  split
  · rw [proper.second]
    exact hash2_lt cfg f.key
  · rw [proper.first]
    exact hash1_lt cfg f.key

theorem miss_proper {f g : LookFrame} (proper : f.Proper cfg) (on : f.miss = .inl g) :
    g.Proper cfg := by
  unfold LookFrame.miss at on
  split at on
  · cases on
  · cases on
    exact ⟨proper.fingerprint,proper.first,proper.second⟩

/-- A step by what its thread was doing. -/
inductive Moved (cfg : Config) (swap : Swap) (s : System) (tid : Nat) : Action → System → Prop where
  | invoke (idle : s.control tid = .idle) (call : Call) :
      Moved cfg swap s tid (.invoke call) (s.goto tid (invoke cfg call))
  | insert {f : InsertFrame} (site : s.control tid = .insert f) (rand : Nat) :
      Moved cfg swap s tid (.run rand)
        (s.settle tid (.insert f.key) .insert (insert cfg swap s.table f rand))
  | find {f : LookFrame} (site : s.control tid = .find f) (rand : Nat) :
      Moved cfg swap s tid (.run rand) (s.settle tid (.find f.key) .find (find s.table f))
  | remove {f : LookFrame} (site : s.control tid = .remove f) (rand : Nat) :
      Moved cfg swap s tid (.run rand) (s.settle tid (.remove f.key) .remove (remove s.table f))

theorem step_moved (moved : step cfg swap s tid action = some t) :
    Moved cfg swap s tid action t := by
  cases action with
  | invoke call =>
    simp only [step] at moved
    split at moved
    · rename_i idle
      cases moved
      exact .invoke idle call
    · cases moved
  | run rand =>
    simp only [step] at moved
    split at moved
    · cases moved
    · rename_i f site
      cases moved
      exact .insert site rand
    · rename_i f site
      cases moved
      exact .find site rand
    · rename_i f site
      cases moved
      exact .remove site rand

theorem step_invoke (idle : s.control tid = .idle) (call : Call) :
    step cfg swap s tid (.invoke call) = some (s.goto tid (invoke cfg call)) := if_pos idle

theorem goto_own (s : System) (tid : Nat) (c : Control) : (s.goto tid c).control tid = c :=
  if_pos rfl

theorem goto_other (s : System) (c : Control) (other : mover ≠ tid) :
    (s.goto tid c).control mover = s.control mover := if_neg other

def landed (wrap : Frame → Control) : Frame ⊕ Bool → Control
  | .inl frame => wrap frame
  | .inr _ => .idle

def answers (tid : Nat) (call : Call) : Frame ⊕ Bool → List (Nat × Call × Bool)
  | .inl _ => []
  | .inr answer => [(tid,call,answer)]

theorem settle_eq (s : System) (tid : Nat) (call : Call) (wrap : Frame → Control)
    (out : Table × (Frame ⊕ Bool)) :
    s.settle tid call wrap out =
      ⟨out.1,(s.goto tid (landed wrap out.2)).control,answers tid call out.2 ++ s.returned⟩ := by
  obtain ⟨table,frame | answer⟩ := out
  · rfl
  · rfl

theorem step_other (moved : step cfg swap s tid action = some t) :
    (∀ other, other ≠ tid → t.control other = s.control other) ∧ s.returned <:+ t.returned := by
  cases step_moved moved with
  | invoke idle call => exact ⟨fun other away => goto_other s _ away,List.suffix_refl _⟩
  | insert site rand | find site rand | remove site rand =>
    rw [settle_eq]
    exact ⟨fun other away => goto_other s _ away,List.suffix_append _ _⟩

def Control.Proper (cfg : Config) : Control → Prop
  | .idle => True
  | .insert f => f.Proper cfg
  | .find f | .remove f => f.Proper cfg

structure Sound (cfg : Config) (s : System) : Prop where
  size : s.table.tableSize = cfg.tableSize
  proper : ∀ tid, (s.control tid).Proper cfg
  bounded : ∃ n, ∀ tid, n ≤ tid → s.control tid = .idle

theorem sound_initial (cfg : Config) : Sound cfg (System.initial cfg) :=
  ⟨rfl,fun _ => trivial,0,fun _ _ => rfl⟩

theorem sound_own (sound : Sound cfg s) (moved : step cfg swap s tid action = some t) :
    t.table.tableSize = cfg.tableSize ∧ (t.control tid).Proper cfg := by
  have proper := sound.proper tid
  cases step_moved moved with
  | invoke idle call =>
    refine ⟨sound.size,?_⟩
    rw [goto_own]
    cases call with
    | insert key => exact enter_proper cfg key
    | find key => exact look_proper cfg key
    | remove key => exact look_proper cfg key
  | @insert f site rand =>
    rw [site] at proper
    rw [settle_eq,goto_own]
    refine ⟨(insert_tableSize cfg swap s.table f rand).trans sound.size,?_⟩
    cases stepped : (insert cfg swap s.table f rand).2 with
    | inl g => exact insert_proper proper stepped
    | inr answer => trivial
  | @find f site rand =>
    rw [site] at proper
    rw [settle_eq,goto_own]
    refine ⟨(congrArg _ (find_table s.table f)).trans sound.size,?_⟩
    unfold FineGrained.find
    split
    · trivial
    · cases on : f.miss with
      | inl g => exact miss_proper proper on
      | inr answer => trivial
  | @remove f site rand =>
    rw [site] at proper
    rw [settle_eq,goto_own]
    refine ⟨(remove_tableSize s.table f).trans sound.size,?_⟩
    unfold FineGrained.remove
    split
    · trivial
    · cases on : f.miss with
      | inl g => exact miss_proper proper on
      | inr answer => trivial

theorem sound_step (sound : Sound cfg s) (moved : step cfg swap s tid action = some t) :
    Sound cfg t := by
  obtain ⟨size,own⟩ := sound_own sound moved
  obtain ⟨others,-⟩ := step_other moved
  refine ⟨size,fun mover => ?_,?_⟩
  · by_cases same : mover = tid
    · rw [same]
      exact own
    · rw [others mover same]
      exact sound.proper mover
  · obtain ⟨n,rest⟩ := sound.bounded
    refine ⟨max n (tid + 1),fun mover beyond => ?_⟩
    rw [others mover (by omega)]
    exact rest mover (by omega)

/-- A schedule, as far as every step of it is possible and meets the condition. -/
def executeWhile (cfg : Config) (swap : Swap) (condition : Nat → Action → System → Prop)
    [∀ tid action s, Decidable (condition tid action s)] :
    List (Nat × Action) → System → Option System
  | [],s => some s
  | (tid,action) :: schedule,s =>
    if condition tid action s then
      (step cfg swap s tid action).bind (executeWhile cfg swap condition schedule)
    else none

section

variable {condition : Nat → Action → System → Prop}
variable [∀ tid action s, Decidable (condition tid action s)]

theorem executeWhile_run (schedule : List (Nat × Action)) (s t : System)
    (executed : executeWhile cfg swap condition schedule s = some t) :
    Run cfg swap condition s t := by
  induction schedule generalizing s with
  | nil =>
    cases executed
    exact .refl
  | cons head rest ih =>
    obtain ⟨tid,action⟩ := head
    simp only [executeWhile] at executed
    split at executed
    · obtain ⟨middle,moved,later⟩ := Option.bind_eq_some_iff.mp executed
      exact .head ⟨tid,action,by assumption,moved⟩ (ih _ later)
    · contradiction

theorem executeWhile_other (schedule : List (Nat × Action)) (s t : System)
    (executed : executeWhile cfg swap condition schedule s = some t)
    (outside : ∀ x ∈ schedule, x.1 ≠ tid) : t.control tid = s.control tid := by
  induction schedule generalizing s with
  | nil =>
    cases executed
    rfl
  | cons head rest ih =>
    obtain ⟨mover,action⟩ := head
    simp only [executeWhile] at executed
    split at executed
    · obtain ⟨middle,moved,later⟩ := Option.bind_eq_some_iff.mp executed
      rw [ih _ later fun x member => outside x (List.mem_cons_of_mem _ member)]
      exact (step_other moved).1 tid (outside _ List.mem_cons_self).symm
    · contradiction

/-- Where a schedule from the empty filter ends. -/
def endState (cfg : Config) (swap : Swap) (condition : Nat → Action → System → Prop)
    [∀ tid action s, Decidable (condition tid action s)] (schedule : List (Nat × Action)) :
    System :=
  (executeWhile cfg swap condition schedule (System.initial cfg)).getD (System.initial cfg)

theorem endState_run (schedule : List (Nat × Action))
    (possible : (executeWhile cfg swap condition schedule (System.initial cfg)).isSome = true) :
    Run cfg swap condition (System.initial cfg) (endState cfg swap condition schedule) := by
  obtain ⟨t,executed⟩ := Option.isSome_iff_exists.mp possible
  rw [endState,executed]
  exact executeWhile_run schedule _ t executed

theorem endState_idle (schedule : List (Nat × Action))
    (last : s = endState cfg swap condition schedule) (threads : ∀ x ∈ schedule, x.1 < n)
    (ended : ∀ tid < n, s.control tid = .idle) (tid : Nat) :
    s.control tid = .idle := by
  by_cases few : tid < n
  · exact ended tid few
  · rw [last,endState]
    cases executed : executeWhile cfg swap condition schedule (System.initial cfg) with
    | none => rfl
    | some t =>
      refine executeWhile_other schedule _ t executed fun x member same => ?_
      have := threads x member
      omega

end

def runs (tid n : Nat) : List (Nat × Action) := List.replicate n (tid,.run 0)

/-- A call and its first `n` steps. -/
def inserts (tid : Nat) (key : Bytes) (n : Nat) : List (Nat × Action) :=
  (tid,.invoke (.insert key)) :: runs tid n

def sampleConfig : Config := ⟨2,Nat.zero_lt_two,sampleMd5,sampleMd5_length⟩

end CuckooFilter.FineGrained
