import CuckooFilter.FineGrainedStep

/-! What the table and the kick loops hold together. Every completed insertion has put its
fingerprint in and every completed removal has taken one out; a kick loop past its first
swap has put its own in already and carries another one. -/
namespace CuckooFilter.FineGrained

variable {cfg : Config} {swap : Swap} {s t : System} {table : Table} {f : InsertFrame} {tid : Nat}
variable {κ : Type*} {label : Nat → Bytes → κ}

/-- A string under the label of its bucket; the empty string is none. -/
def seen (label : Nat → Bytes → κ) (b : Nat) (str : Bytes) : Option κ :=
  if str = [] then none else some (label b str)

def Config.keyLabel (cfg : Config) (label : Nat → Bytes → κ) (key : Bytes) : κ :=
  label (cfg.hash1 key) (cfg.md5Fingerprint key)

/-- A label that a hop to the next bucket keeps. -/
def Config.Hops (cfg : Config) (label : Nat → Bytes → κ) : Prop :=
  ∀ b < cfg.tableSize, ∀ str, label (getNextHashIndex cfg.tableSize b str) str = label b str

theorem held_seen (table : Table) (b i : Nat) :
    (table.held b i).map (label b) = seen label b (table.hashTable b i) := by
  unfold SequentialFilter.held seen
  split
  · rfl
  · rfl

theorem labels_write (label : Nat → Bytes → κ) (size : table.tableSize = cfg.tableSize)
    (bucket : b < cfg.tableSize) (slot : i < numItemsPerEntry) (str : Bytes) :
    labels cfg.tableSize label (table.write b i str).held +
        ((seen label b (table.hashTable b i)).toList : Multiset κ) =
      labels cfg.tableSize label table.held + ((seen label b str).toList : Multiset κ) := by
  have exchange : labels cfg.tableSize label (table.write b i str).held +
        (((table.held b i).map (label b)).toList : Multiset κ) =
      labels cfg.tableSize label table.held +
        ((((table.write b i str).held b i).map (label b)).toList : Multiset κ) :=
    labels_exchange (size ▸ bucket) slot fun _ _ => SequentialFilter.held_write_other
  have written : (table.write b i str).hashTable b i = str := by simp [SequentialFilter.write]
  rwa [held_seen,held_seen,written] at exchange

theorem labels_fill (size : table.tableSize = cfg.tableSize) (bucket : b < cfg.tableSize)
    (found : table.scan List.isEmpty b = some i) (str : Bytes) :
    labels cfg.tableSize label (table.write b i str).held =
      labels cfg.tableSize label table.held + ((seen label b str).toList : Multiset κ) := by
  obtain ⟨slot,empty⟩ := SequentialFilter.scan_some found
  have filled := labels_write label size bucket slot str
  rw [List.isEmpty_iff.mp empty] at filled
  simpa [seen] using filled

/-- What a kick loop has in hand. -/
def InsertFrame.carried (label : Nat → Bytes → κ) (f : InsertFrame) : Option κ :=
  f.pc.kicking.bind fun b => seen label b f.fingerprint

/-- What a kick loop has put in before its insertion is over. -/
def InsertFrame.owed (cfg : Config) (label : Nat → Bytes → κ) (f : InsertFrame) : Option κ :=
  f.pc.kicking.map fun _ => cfg.keyLabel label f.key

/-- The slot that is about to be written still has the string read from it. -/
def InsertPc.Intact (table : Table) : InsertPc → Prop
  | .write _ b i victim => table.hashTable b i = victim
  | _ => True

instance (table : Table) : DecidablePred (InsertPc.Intact table)
  | .write _ b i victim => inferInstanceAs (Decidable (table.hashTable b i = victim))
  | .first | .second | .flag | .swap _ _ | .place _ _ => .isTrue trivial

theorem keyLabel_second (hops : cfg.Hops label) (key : Bytes) :
    label (cfg.hash2 key) (cfg.md5Fingerprint key) = cfg.keyLabel label key :=
  hops _ (hash1_lt cfg key) _

theorem seen_own (hops : cfg.Hops label) (proper : f.Proper cfg) (early : f.pc.kicking = none)
    (home : b = f.hash1 ∨ b = f.hash2) :
    seen label b f.fingerprint = some (cfg.keyLabel label f.key) := by
  rw [seen,proper.own early,if_neg (cfg.nonempty f.key)]
  rcases home with rfl | rfl
  · rw [proper.first]
    rfl
  · rw [proper.second,keyLabel_second hops]

theorem store_balance (size : table.tableSize = cfg.tableSize) (bucket : b < cfg.tableSize)
    (found : table.scan List.isEmpty b = some i)
    (own : (seen label b f.fingerprint).toList + ((f.owed cfg label).toList : Multiset κ) =
      (f.carried label).toList + {cfg.keyLabel label f.key}) :
    labels cfg.tableSize label (table.write b i f.fingerprint).held +
        ((f.owed cfg label).toList : Multiset κ) =
      labels cfg.tableSize label table.held + ((f.carried label).toList : Multiset κ) +
        {cfg.keyLabel label f.key} := by
  rw [labels_fill size bucket found,add_assoc,own,add_assoc]

/-- The fingerprint in hand and the victim change places; the first swap of an insertion
puts its own fingerprint in. -/
theorem swapped_balance (hops : cfg.Hops label) (proper : f.Proper cfg)
    (size : table.tableSize = cfg.tableSize) (bucket : b < cfg.tableSize)
    (slot : i < numItemsPerEntry) (start : n = 0 → b = f.hash1 ∨ b = f.hash2)
    (early : n = 0 → f.pc.kicking = none) (late : n ≠ 0 → f.pc.kicking = some b)
    (there : table.hashTable b i = victim) {g : InsertFrame}
    (stepped : (f.swapped cfg table n b i victim).2 = .inl g) :
    labels cfg.tableSize label (f.swapped cfg table n b i victim).1.held +
        ((g.carried label).toList : Multiset κ) + ((f.owed cfg label).toList : Multiset κ) =
      labels cfg.tableSize label table.held + ((f.carried label).toList : Multiset κ) +
        ((g.owed cfg label).toList : Multiset κ) := by
  have exchange := labels_write label size bucket slot f.fingerprint
  have carried : g.carried label = seen label b (table.hashTable b i) := by
    cases stepped
    show seen label (getNextHashIndex cfg.tableSize b victim) victim = _
    rw [there,seen,seen,hops b bucket]
  have owed : g.owed cfg label = some (cfg.keyLabel label f.key) := by
    cases stepped
    rfl
  rw [carried,owed]
  show labels cfg.tableSize label (table.write b i f.fingerprint).held + _ + _ = _
  rw [exchange]
  by_cases zero : n = 0
  · have own := seen_own hops proper (early zero) (start zero)
    rw [own,InsertFrame.carried,InsertFrame.owed,early zero]
    simp
  · rw [InsertFrame.carried,InsertFrame.owed,late zero]
    rfl

theorem insert_balance (hops : cfg.Hops label) (proper : f.Proper cfg)
    (size : table.tableSize = cfg.tableSize) (intact : f.pc.Intact table) {rand : Nat}
    {g : InsertFrame} (stepped : (insert cfg swap table f rand).2 = .inl g) :
    labels cfg.tableSize label (insert cfg swap table f rand).1.held +
        ((g.carried label).toList : Multiset κ) + ((f.owed cfg label).toList : Multiset κ) =
      labels cfg.tableSize label table.held + ((f.carried label).toList : Multiset κ) +
        ((g.owed cfg label).toList : Multiset κ) := by
  cases pc : f.pc with
  | first =>
    simp only [insert,pc] at stepped ⊢
    split at stepped
    · cases stepped
    · cases stepped
      simp [InsertFrame.carried,InsertFrame.owed,pc,InsertPc.kicking,InsertFrame.goto]
  | second =>
    simp only [insert,pc] at stepped ⊢
    split at stepped
    · cases stepped
    · cases stepped
      simp [InsertFrame.carried,InsertFrame.owed,pc,InsertPc.kicking,InsertFrame.goto]
  | flag =>
    simp only [insert,pc] at stepped ⊢
    cases stepped
    simp [InsertFrame.carried,InsertFrame.owed,pc,InsertPc.kicking,InsertFrame.goto]
  | swap n b =>
    obtain ⟨bucket,start⟩ := proper.swap n b pc
    cases swap with
    | whole =>
      simp only [insert,pc] at stepped ⊢
      refine swapped_balance hops proper size bucket (Nat.mod_lt _ (by decide)) start ?_ ?_ rfl
        stepped
      · rintro rfl
        rw [pc]
        rfl
      · intro later
        obtain ⟨k,rfl⟩ := Nat.exists_eq_succ_of_ne_zero later
        rw [pc]
        rfl
    | split =>
      simp only [insert,pc] at stepped ⊢
      cases stepped
      have same : (f.goto (.write n b (rand % numItemsPerEntry)
          (table.hashTable b (rand % numItemsPerEntry)))).pc.kicking = f.pc.kicking := by
        rw [pc]
        cases n <;> rfl
      rw [InsertFrame.carried,InsertFrame.carried,InsertFrame.owed,InsertFrame.owed,same]
      rfl
  | write n b i victim =>
    obtain ⟨bucket,slot,start⟩ := proper.write n b i victim pc
    simp only [insert,pc] at stepped ⊢
    have there : table.hashTable b i = victim := by simpa [InsertPc.Intact,pc] using intact
    refine swapped_balance hops proper size bucket slot start ?_ ?_ there stepped
    · rintro rfl
      rw [pc]
      rfl
    · intro later
      obtain ⟨k,rfl⟩ := Nat.exists_eq_succ_of_ne_zero later
      rw [pc]
      rfl
  | place n b =>
    simp only [insert,pc] at stepped ⊢
    split at stepped
    · cases stepped
    · split at stepped
      · rename_i more
        cases stepped
        rw [if_pos more]
        simp [InsertFrame.carried,InsertFrame.owed,pc,InsertPc.kicking,InsertFrame.goto]
      · cases stepped

theorem insert_stored (hops : cfg.Hops label) (proper : f.Proper cfg)
    (size : table.tableSize = cfg.tableSize) {rand : Nat}
    (stepped : (insert cfg swap table f rand).2 = .inr true) :
    labels cfg.tableSize label (insert cfg swap table f rand).1.held +
        ((f.owed cfg label).toList : Multiset κ) =
      labels cfg.tableSize label table.held + ((f.carried label).toList : Multiset κ) +
        {cfg.keyLabel label f.key} := by
  cases pc : f.pc with
  | first =>
    have early : f.pc.kicking = none := by rw [pc]; rfl
    simp only [insert,pc] at stepped ⊢
    split at stepped
    · rename_i i found
      refine store_balance size proper.first_lt found ?_
      rw [seen_own hops proper early (.inl rfl),InsertFrame.owed,InsertFrame.carried,early]
      simp
    · cases stepped
  | second =>
    have early : f.pc.kicking = none := by rw [pc]; rfl
    simp only [insert,pc] at stepped ⊢
    split at stepped
    · rename_i i found
      refine store_balance size proper.second_lt found ?_
      rw [seen_own hops proper early (.inr rfl),InsertFrame.owed,InsertFrame.carried,early]
      simp
    · cases stepped
  | flag =>
    simp only [insert,pc] at stepped
    cases stepped
  | swap n b =>
    cases swap with
    | whole =>
      simp only [insert,pc] at stepped
      cases stepped
    | split =>
      simp only [insert,pc] at stepped
      cases stepped
  | write n b i victim =>
    simp only [insert,pc] at stepped
    cases stepped
  | place n b =>
    simp only [insert,pc] at stepped ⊢
    split at stepped
    · rename_i i found
      refine store_balance size (proper.place n b pc) found ?_
      rw [InsertFrame.owed,InsertFrame.carried,pc]
      rfl
    · split at stepped
      · cases stepped
      · cases stepped

theorem LookFrame.Proper.seen {f : LookFrame} (hops : cfg.Hops label) (proper : f.Proper cfg) :
    seen label f.bucket f.fingerprint = some (cfg.keyLabel label f.key) := by
  rw [FineGrained.seen,proper.fingerprint,if_neg (cfg.nonempty f.key)]
  unfold LookFrame.bucket
  split
  · rw [proper.second,keyLabel_second hops]
  · rw [proper.first]
    rfl

theorem remove_balance (hops : cfg.Hops label) {f : LookFrame} (proper : f.Proper cfg)
    (size : table.tableSize = cfg.tableSize) :
    labels cfg.tableSize label (remove table f).1.held +
        (if (remove table f).2 = .inr true then {cfg.keyLabel label f.key} else 0) =
      labels cfg.tableSize label table.held := by
  unfold remove
  split
  · rename_i i found
    obtain ⟨slot,hit⟩ := SequentialFilter.scan_some found
    have there : table.hashTable f.bucket i = f.fingerprint := by
      simp only [decide_eq_true_eq] at hit
      exact hit.2
    have cleared := labels_write label size proper.bucket_lt slot []
    rw [there,proper.seen hops] at cleared
    simpa [FineGrained.seen] using cleared
  · unfold LookFrame.miss
    split
    · simp
    · simp

def Control.carried (label : Nat → Bytes → κ) : Control → Option κ
  | .insert f => f.carried label
  | _ => none

def Control.owed (cfg : Config) (label : Nat → Bytes → κ) : Control → Option κ
  | .insert f => f.owed cfg label
  | _ => none

/-- What the first `n` threads carry. -/
def System.carried (label : Nat → Bytes → κ) (n : Nat) (s : System) : Multiset κ :=
  Bag.contents (Finset.range n) fun tid => (s.control tid).carried label

def System.owed (cfg : Config) (label : Nat → Bytes → κ) (n : Nat) (s : System) : Multiset κ :=
  Bag.contents (Finset.range n) fun tid => (s.control tid).owed cfg label

def System.events (s : System) : List (Call × Bool) := s.returned.map Prod.snd

/-- The labels that answers of insertions have put in. -/
def System.put (cfg : Config) (label : Nat → Bytes → κ) (s : System) : Multiset κ :=
  (Bag.inserted s.events).map (cfg.keyLabel label)

def System.taken (cfg : Config) (label : Nat → Bytes → κ) (s : System) : Multiset κ :=
  (Bag.removed s.events).map (cfg.keyLabel label)

/-- Table and hands hold what has been put in and not taken out. -/
def System.Balances (cfg : Config) (label : Nat → Bytes → κ) (n : Nat) (s : System) : Prop :=
  labels cfg.tableSize label s.table.held + s.carried label n + s.taken cfg label =
    s.owed cfg label n + s.put cfg label

theorem balances_change (inside : tid < n)
    (others : ∀ other, other ≠ tid → t.control other = s.control other)
    (change : labels cfg.tableSize label t.table.held +
          (((t.control tid).carried label).toList : Multiset κ) + t.taken cfg label +
          ((s.control tid).owed cfg label).toList + s.put cfg label =
        labels cfg.tableSize label s.table.held +
          (((s.control tid).carried label).toList : Multiset κ) + s.taken cfg label +
          ((t.control tid).owed cfg label).toList + t.put cfg label)
    (before : s.Balances cfg label n) : t.Balances cfg label n := by
  classical
  have carried : t.carried label n + (((s.control tid).carried label).toList : Multiset κ) =
      s.carried label n + (((t.control tid).carried label).toList : Multiset κ) :=
    Bag.contents_exchange (f := fun other => (s.control other).carried label)
      (Finset.mem_range.mpr inside) fun other _ away => by rw [others other away]
  have owed : t.owed cfg label n + (((s.control tid).owed cfg label).toList : Multiset κ) =
      s.owed cfg label n + (((t.control tid).owed cfg label).toList : Multiset κ) :=
    Bag.contents_exchange (f := fun other => (s.control other).owed cfg label)
      (Finset.mem_range.mpr inside) fun other _ away => by rw [others other away]
  unfold System.Balances at before ⊢
  refine Multiset.ext.mpr fun c => ?_
  have change := congrArg (Multiset.count c) change
  have carried := congrArg (Multiset.count c) carried
  have owed := congrArg (Multiset.count c) owed
  have before := congrArg (Multiset.count c) before
  simp only [Multiset.count_add] at change carried owed before ⊢
  omega

theorem balances_widen (idle : ∀ tid, n ≤ tid → s.control tid = .idle) (k : Nat) :
    s.Balances cfg label (n + k) ↔ s.Balances cfg label n := by
  induction k with
  | zero => rfl
  | succ k ih =>
    rw [← ih]
    have rests : s.control (n + k) = .idle := idle _ (by omega)
    have carried : s.carried label (n + (k + 1)) = s.carried label (n + k) := by
      unfold System.carried Bag.contents
      rw [← Nat.add_assoc,Finset.range_val,Multiset.range_succ,
        Multiset.filterMap_cons_none _ _ (by rw [rests]; rfl),Finset.range_val]
    have owed : s.owed cfg label (n + (k + 1)) = s.owed cfg label (n + k) := by
      unfold System.owed Bag.contents
      rw [← Nat.add_assoc,Finset.range_val,Multiset.range_succ,
        Multiset.filterMap_cons_none _ _ (by rw [rests]; rfl),Finset.range_val]
    rw [System.Balances,System.Balances,carried,owed]

def System.Balanced (cfg : Config) (label : Nat → Bytes → κ) (s : System) : Prop :=
  ∀ n, (∀ tid, n ≤ tid → s.control tid = .idle) → s.Balances cfg label n

theorem balanced_of (idle : ∀ tid, n ≤ tid → s.control tid = .idle)
    (balances : s.Balances cfg label n) : s.Balanced cfg label := by
  intro k rests
  rcases Nat.le_total n k with less | less
  · obtain ⟨d,rfl⟩ := Nat.exists_eq_add_of_le less
    exact (balances_widen idle d).mpr balances
  · obtain ⟨d,rfl⟩ := Nat.exists_eq_add_of_le less
    exact (balances_widen rests d).mp balances

theorem balanced_initial (cfg : Config) : (System.initial cfg).Balanced cfg label := by
  refine balanced_of (n := 0) (fun _ _ => rfl) ?_
  have empty : labels cfg.tableSize label (System.initial cfg).table.held = 0 :=
    labels_empty fun b i => by simp [System.initial,SequentialFilter.held,SequentialFilter.new]
  rw [System.Balances,empty]
  rfl

def Accepts : Call × Bool → Prop
  | (.insert _,answer) => answer = true
  | _ => True

instance : DecidablePred Accepts
  | (.insert _,answer) => inferInstanceAs (Decidable (answer = true))
  | (.find _,_) | (.remove _,_) => .isTrue trivial

def System.Accepted (s : System) : Prop := ∀ x ∈ s.returned, Accepts x.2

instance (s : System) : Decidable s.Accepted :=
  inferInstanceAs (Decidable (∀ x ∈ s.returned, Accepts x.2))

/-- The next step is not a write over a changed slot. -/
def Control.Intact (table : Table) : Control → Prop
  | .insert f => f.pc.Intact table
  | _ => True

instance (table : Table) : DecidablePred (Control.Intact table)
  | .insert f => inferInstanceAs (Decidable (f.pc.Intact table))
  | .idle | .find _ | .remove _ => .isTrue trivial

/-- What a step inside a call adds to the account. -/
theorem settle_events (s : System) (tid : Nat) (call : Call) (wrap : Frame → Control)
    (out : Table × (Frame ⊕ Bool)) : (s.settle tid call wrap out).events =
      (answers tid call out.2).map Prod.snd ++ s.events := by
  rw [settle_eq]
  exact List.map_append

theorem put_settle (s : System) (tid : Nat) (call : Call) (wrap : Frame → Control)
    (out : Table × (Frame ⊕ Bool)) : (s.settle tid call wrap out).put cfg label =
      (Bag.inserted ((answers tid call out.2).map Prod.snd)).map (cfg.keyLabel label) +
        s.put cfg label := by
  rw [System.put,settle_events,Bag.inserted,List.filterMap_append,← Multiset.coe_add,
    Multiset.map_add]
  rfl

theorem taken_settle (s : System) (tid : Nat) (call : Call) (wrap : Frame → Control)
    (out : Table × (Frame ⊕ Bool)) : (s.settle tid call wrap out).taken cfg label =
      (Bag.removed ((answers tid call out.2).map Prod.snd)).map (cfg.keyLabel label) +
        s.taken cfg label := by
  rw [System.taken,settle_events,Bag.removed,List.filterMap_append,← Multiset.coe_add,
    Multiset.map_add]
  rfl

/-- The account of one step; only the thread that takes it and its answer are concerned. -/
theorem own_balance (hops : cfg.Hops label) (sound : Sound cfg s)
    (intact : (s.control tid).Intact s.table) (moved : step cfg swap s tid action = some t)
    (accepted : t.Accepted) :
    labels cfg.tableSize label t.table.held +
        (((t.control tid).carried label).toList : Multiset κ) + t.taken cfg label +
        ((s.control tid).owed cfg label).toList + s.put cfg label =
      labels cfg.tableSize label s.table.held +
        (((s.control tid).carried label).toList : Multiset κ) + s.taken cfg label +
        ((t.control tid).owed cfg label).toList + t.put cfg label := by
  have proper := sound.proper tid
  cases step_moved moved with
  | invoke idle call =>
    rw [goto_own,idle]
    cases call <;> rfl
  | @insert f site rand =>
    rw [site] at proper ⊢
    cases stepped : (insert cfg swap s.table f rand).2 with
    | inl g =>
      have whole : f.pc.Intact s.table := by simpa [Control.Intact,site] using intact
      have balance := insert_balance hops proper sound.size whole stepped
      rw [put_settle,taken_settle,settle_eq,stepped,goto_own]
      simp only [answers,landed,Control.carried,Control.owed,List.map_nil,Bag.inserted,Bag.removed,
        List.filterMap_nil,Multiset.coe_nil,Multiset.map_zero,zero_add]
      rw [add_right_comm (labels _ _ _ + _),balance]
      abel
    | inr answer =>
      cases answer with
      | true =>
        have balance := insert_stored hops proper sound.size stepped
        rw [put_settle,taken_settle,settle_eq,stepped,goto_own]
        simp only [answers,landed,Control.carried,Control.owed,List.map_cons,List.map_nil,
          Bag.inserted,Bag.removed,Bag.putBy,Bag.takenBy,List.filterMap_cons,List.filterMap_nil,
          Multiset.coe_nil,Multiset.coe_singleton,Multiset.map_zero,Multiset.map_singleton,
          Option.toList_none,zero_add,add_zero]
        rw [add_right_comm (labels _ _ _) (s.taken cfg label),balance]
        abel
      | false =>
        rw [settle_eq,stepped] at accepted
        exact absurd (accepted _ List.mem_cons_self) Bool.false_ne_true
  | @find f site rand =>
    rw [site,put_settle,taken_settle,settle_eq,goto_own,find_table]
    cases (find s.table f).2 with
    | inl g => rfl
    | inr answer => rfl
  | @remove f site rand =>
    rw [site] at proper
    have balance := remove_balance hops proper sound.size
    rw [site,put_settle,taken_settle,settle_eq,goto_own]
    cases stepped : (remove s.table f).2 with
    | inl g =>
      rw [stepped,if_neg (by simp),add_zero] at balance
      rw [← balance]
      rfl
    | inr answer =>
      cases answer with
      | true =>
        rw [stepped,if_pos rfl] at balance
        simp only [answers,landed,Control.carried,Control.owed,List.map_cons,List.map_nil,
          Bag.inserted,Bag.removed,Bag.putBy,Bag.takenBy,List.filterMap_cons,List.filterMap_nil,
          Multiset.coe_nil,Multiset.coe_singleton,Multiset.map_zero,Multiset.map_singleton,
          Option.toList_none,zero_add,add_zero]
        rw [← balance]
        abel
      | false =>
        rw [stepped,if_neg (by simp),add_zero] at balance
        rw [← balance]
        rfl

theorem balanced_step (hops : cfg.Hops label) (sound : Sound cfg s)
    (intact : (s.control tid).Intact s.table) (moved : step cfg swap s tid action = some t)
    (accepted : t.Accepted) (balanced : s.Balanced cfg label) : t.Balanced cfg label := by
  obtain ⟨others,-⟩ := step_other moved
  obtain ⟨n,rest⟩ := sound.bounded
  refine balanced_of (n := max n (tid + 1)) ?_ ?_
  · intro mover beyond
    rw [others mover (by omega)]
    exact rest mover (by omega)
  · refine balances_change (by omega) others (own_balance hops sound intact moved accepted) ?_
    exact balanced (max n (tid + 1)) fun mover beyond => rest mover (by omega)

theorem accepted_before (moved : step cfg swap s tid action = some t) (accepted : t.Accepted) :
    s.Accepted :=
  fun x member => accepted x ((step_other moved).2.subset member)

/-- Along a run of steps that find the slots they write unchanged, nothing is lost and
nothing comes twice. -/
theorem run_balanced (hops : cfg.Hops label)
    (run : Run cfg swap (fun tid _ s => (s.control tid).Intact s.table) (System.initial cfg) s)
    (accepted : s.Accepted) :
    s.Balanced cfg label := by
  have both : Sound cfg s ∧ (s.Accepted → s.Balanced cfg label) := by
    refine Transition.run_invariant (fun s => Sound cfg s ∧ (s.Accepted → s.Balanced cfg label)) ?_
      ⟨sound_initial cfg,fun _ => balanced_initial cfg⟩ run
    rintro s t ⟨sound,balanced⟩ ⟨tid,action,intact,moved⟩
    refine ⟨sound_step sound moved,fun accepted => ?_⟩
    exact balanced_step hops sound intact moved accepted (balanced (accepted_before moved accepted))
  exact both.2 accepted

def Action.Inserts : Action → Prop
  | .invoke (.insert _) | .run _ => True
  | _ => False

instance : DecidablePred Action.Inserts
  | .invoke (.insert _) | .run _ => .isTrue trivial
  | .invoke (.find _) | .invoke (.remove _) => .isFalse id

structure System.Inserts (s : System) : Prop where
  control : ∀ tid, s.control tid = .idle ∨ ∃ f, s.control tid = .insert f
  returned : ∀ x ∈ s.returned, ∃ key, x.2.1 = .insert key

theorem inserts_step (inserts : s.Inserts) (only : action.Inserts)
    (moved : step cfg swap s tid action = some t) : t.Inserts := by
  obtain ⟨others,-⟩ := step_other moved
  have own : (t.control tid = .idle ∨ ∃ f, t.control tid = .insert f) ∧
      ∀ x ∈ t.returned, ∃ key, x.2.1 = .insert key := by
    cases step_moved moved with
    | invoke idle call =>
      cases call with
      | insert key => exact ⟨.inr ⟨_,goto_own s tid _⟩,inserts.returned⟩
      | find key => exact absurd only id
      | remove key => exact absurd only id
    | @insert f site rand =>
      rw [settle_eq,goto_own]
      cases (insert cfg swap s.table f rand).2 with
      | inl g => exact ⟨.inr ⟨g,rfl⟩,inserts.returned⟩
      | inr answer =>
        refine ⟨.inl rfl,fun x member => ?_⟩
        rcases List.mem_cons.mp member with rfl | old
        · exact ⟨f.key,rfl⟩
        · exact inserts.returned x old
    | find site rand | remove site rand =>
      rcases inserts.control tid with idle | ⟨f,other⟩
      · rw [idle] at site
        cases site
      · rw [other] at site
        cases site
  refine ⟨fun mover => ?_,own.2⟩
  by_cases same : mover = tid
  · rw [same]
    exact own.1
  · rw [others mover same]
    exact inserts.control mover

theorem System.Inserts.removed (inserts : s.Inserts) : Bag.removed s.events = 0 := by
  unfold Bag.removed System.events
  rw [List.filterMap_map]
  refine (congrArg _ (List.filterMap_eq_nil_iff.mpr fun x member => ?_)).trans Multiset.coe_nil
  obtain ⟨key,call⟩ := inserts.returned x member
  obtain ⟨tid,call',answer⟩ := x
  cases call
  rfl

/-- A run of insertions in which no kick loop writes over a slot that has changed since the
loop read it: when all are over, the table has the fingerprints of the inserted keys. -/
theorem inserted_fingerprints
    (run : Run cfg .split (fun tid action s => action.Inserts ∧ (s.control tid).Intact s.table)
      (System.initial cfg) s)
    (ended : ∀ tid, s.control tid = .idle) (accepted : s.Accepted) :
    s.table.fingerprints = (Bag.inserted s.events).map cfg.md5Fingerprint := by
  have intact : Run cfg .split (fun tid _ s => (s.control tid).Intact s.table)
      (System.initial cfg) s := by
    refine Relation.ReflTransGen.mono ?_ _ _ run
    rintro s t ⟨tid,action,⟨-,intact⟩,moved⟩
    exact ⟨tid,action,intact,moved⟩
  have inserts : s.Inserts := by
    refine Transition.run_invariant System.Inserts ?_
      ⟨fun _ => .inl rfl,by simp [System.initial]⟩ run
    rintro s t inserts ⟨tid,action,⟨only,-⟩,moved⟩
    exact inserts_step inserts only moved
  have size : s.table.tableSize = cfg.tableSize := by
    refine (Transition.run_invariant (Sound cfg) ?_ (sound_initial cfg) run).size
    rintro s t sound ⟨tid,action,-,moved⟩
    exact sound_step sound moved
  have hops : cfg.Hops fun _ str => str := fun _ _ _ => rfl
  have own : cfg.keyLabel (fun _ str => str) = cfg.md5Fingerprint := rfl
  have balances := run_balanced hops intact accepted 0 fun tid _ => ended tid
  unfold System.Balances System.carried System.owed System.taken System.put at balances
  rw [inserts.removed,own] at balances
  simpa [Bag.contents,SequentialFilter.fingerprints,fingerprints,size,ended,Control.carried,
    Control.owed] using balances

/-- Four `a` fill bucket 0, and one of them makes room for `f`. -/
def swappedSchedule : List (Nat × Action) :=
  inserts 0 keyA 1 ++ inserts 0 keyA 1 ++ inserts 0 keyA 1 ++ inserts 0 keyA 1 ++ inserts 1 keyF 6

def swappedState : System :=
  endState sampleConfig .split (fun tid action s => action.Inserts ∧ (s.control tid).Intact s.table)
    swappedSchedule

theorem swapped_fingerprints : swappedState.table.fingerprints =
    (Bag.inserted swappedState.events).map sampleMd5 := by
  have run : Run sampleConfig .split
      (fun tid action s => action.Inserts ∧ (s.control tid).Intact s.table)
      (System.initial sampleConfig) swappedState := endState_run swappedSchedule (by decide +kernel)
  have ended : ∀ tid, swappedState.control tid = .idle :=
    endState_idle (n := 2) swappedSchedule rfl (by decide +kernel) (by decide +kernel)
  exact inserted_fingerprints run ended (by decide +kernel)

/-- Threads 1 and 2 insert `f` into the full bucket 0 and read the same `a`; both write
their `f` over it and both store the `a` in bucket 1. -/
def overlappingSchedule : List (Nat × Action) :=
  inserts 0 keyA 1 ++ inserts 0 keyA 1 ++ inserts 0 keyA 1 ++ inserts 0 keyA 1 ++
    inserts 1 keyF 4 ++ inserts 2 keyF 4 ++ runs 1 2 ++ runs 2 2

def overlappingState : System :=
  endState sampleConfig .split (fun _ action _ => action.Inserts) overlappingSchedule

theorem fingerprint_overwritten : ¬∀ (cfg : Config) (s : System),
    Run cfg .split (fun _ action _ => action.Inserts) (System.initial cfg) s →
    (∀ tid, s.control tid = .idle) → s.Accepted →
    s.table.fingerprints = (Bag.inserted s.events).map cfg.md5Fingerprint := by
  intro conserved
  have run : Run sampleConfig .split (fun _ action _ => action.Inserts)
      (System.initial sampleConfig) overlappingState :=
    endState_run overlappingSchedule (by decide +kernel)
  have ended : ∀ tid, overlappingState.control tid = .idle :=
    endState_idle (n := 3) overlappingSchedule rfl (by decide +kernel) (by decide +kernel)
  have same := conserved sampleConfig overlappingState run ended (by decide +kernel)
  have left : overlappingState.table.fingerprints.count (sampleMd5 keyF) = 1 := by decide +kernel
  have put : ((Bag.inserted overlappingState.events).map sampleMd5).count (sampleMd5 keyF) = 2 := by
    decide +kernel
  have counts := congrArg (Multiset.count (sampleMd5 keyF)) same
  exact absurd (left.symm.trans (counts.trans put)) (by decide)

end CuckooFilter.FineGrained
