import CuckooFilter.Classes

/-! The sequential filter. Its mutex makes each call one step, so the model has no
threads; the empty string is an empty slot. `verbose` output is left out. -/
namespace CuckooFilter

structure SequentialFilter where
  tableSize : Nat
  hashTable : Nat → Nat → Bytes

namespace SequentialFilter

def new (capacity : Nat) : SequentialFilter := ⟨capacity,fun _ _ => []⟩

def write (s : SequentialFilter) (bucket slot : Nat) (fingerprint : Bytes) : SequentialFilter :=
  { s with hashTable := fun b i =>
      if b = bucket ∧ i = slot then fingerprint else s.hashTable b i }

/-- The loop over a bucket: the first slot that passes the test. -/
def scan (s : SequentialFilter) (test : Bytes → Bool) (bucket : Nat) : Option Nat :=
  (List.range numItemsPerEntry).find? fun i => test (s.hashTable bucket i)

/-- The replace phase, `left` kicks before the end; `rand` are the outcomes still to
come. The fingerprint in hand and the one in the slot change places. -/
def replace (s : SequentialFilter) (fingerprint : Bytes) (replaceHash : Nat) :
    Nat → (Nat → Nat) → SequentialFilter × Bool
  | 0,_ => (s,false)
  | left + 1,rand =>
    let bucketIdx := rand 0 % numItemsPerEntry
    let victim := s.hashTable replaceHash bucketIdx
    let swapped := s.write replaceHash bucketIdx fingerprint
    let nextHash := getNextHashIndex s.tableSize replaceHash victim
    match swapped.scan List.isEmpty nextHash with
    | some i => (swapped.write nextHash i victim,true)
    | none => swapped.replace victim nextHash left fun n => rand (n + 1)

variable (md5Fingerprint : Bytes → Bytes)

/-- `rand` gives the outcomes of the calls of `rand()`, the first for `flag`. -/
def insert (s : SequentialFilter) (key : Bytes) (rand : Nat → Nat) : SequentialFilter × Bool :=
  let fingerprint := md5Fingerprint key
  let hash1 := (jenkinsHash key).toNat % s.tableSize
  let hash2 := getNextHashIndex s.tableSize hash1 fingerprint
  match s.scan List.isEmpty hash1 with
  | some i => (s.write hash1 i fingerprint,true)
  | none =>
    match s.scan List.isEmpty hash2 with
    | some i => (s.write hash2 i fingerprint,true)
    | none =>
      let flag := rand 0 % 2
      s.replace fingerprint (if flag = 0 then hash1 else hash2) numMaxKicks fun n => rand (n + 1)

def find (s : SequentialFilter) (key : Bytes) : Bool :=
  let fingerprint := md5Fingerprint key
  let hash1 := (jenkinsHash key).toNat % s.tableSize
  let hash2 := getNextHashIndex s.tableSize hash1 fingerprint
  match s.scan (· = fingerprint) hash1 with
  | some _ => true
  | none =>
    match s.scan (· = fingerprint) hash2 with
    | some _ => true
    | none => false

def remove (s : SequentialFilter) (key : Bytes) : SequentialFilter × Bool :=
  let fingerprint := md5Fingerprint key
  let hash1 := (jenkinsHash key).toNat % s.tableSize
  let hash2 := getNextHashIndex s.tableSize hash1 fingerprint
  match s.scan (fun str => str.length ≠ 0 ∧ str = fingerprint) hash1 with
  | some i => (s.write hash1 i [],true)
  | none =>
    match s.scan (fun str => str.length ≠ 0 ∧ str = fingerprint) hash2 with
    | some i => (s.write hash2 i [],true)
    | none => (s,false)

/-- A run from the empty filter, with the calls and their answers, the newest first. -/
inductive Runs (capacity : Nat) : List (Bag.Op Bytes × Bool) → SequentialFilter → Prop where
  | start : Runs capacity [] (new capacity)
  | insert (past : Runs capacity events s) (key : Bytes) (rand : Nat → Nat) :
      Runs capacity ((.insert key,(s.insert md5Fingerprint key rand).2) :: events)
        (s.insert md5Fingerprint key rand).1
  | find (past : Runs capacity events s) (key : Bytes) :
      Runs capacity ((.find key,s.find md5Fingerprint key) :: events) s
  | remove (past : Runs capacity events s) (key : Bytes) :
      Runs capacity ((.remove key,(s.remove md5Fingerprint key).2) :: events)
        (s.remove md5Fingerprint key).1

def held (s : SequentialFilter) (bucket slot : Nat) : Option Bytes :=
  if s.hashTable bucket slot = [] then none else some (s.hashTable bucket slot)

def bag (s : SequentialFilter) : Multiset KeyClass := classes s.tableSize s.held

def fingerprints (s : SequentialFilter) : Multiset Bytes :=
  CuckooFilter.fingerprints s.tableSize s.held

section

variable {κ : Type*} {label : Nat → Bytes → κ}
variable {s : SequentialFilter} {b i : Nat} {fingerprint : Bytes}

@[simp] theorem write_tableSize : (s.write b i fingerprint).tableSize = s.tableSize := rfl

theorem bag_new (capacity : Nat) : (new capacity).bag = 0 := labels_empty (by simp [held,new])

theorem held_write (present : fingerprint ≠ []) :
    (s.write b i fingerprint).held b i = some fingerprint := by simp [held,write,present]

theorem held_clear : (s.write b i []).held b i = none := by simp [held,write]

theorem held_write_other (other : ¬(b' = b ∧ i' = i)) :
    (s.write b i fingerprint).held b' i' = s.held b' i' := by simp [held,write,other]

theorem held_eq_none : s.held b i = none ↔ s.hashTable b i = [] := by simp [held]

theorem held_eq_some : s.held b i = some fingerprint ↔
    s.hashTable b i = fingerprint ∧ fingerprint ≠ [] := by
  unfold held
  split
  · rename_i empty
    simp only [empty,reduceCtorEq,false_iff]
    rintro ⟨rfl,present⟩
    exact present rfl
  · rename_i present
    simp only [Option.some.injEq]
    exact ⟨fun same => ⟨same,same ▸ present⟩,fun both => both.1⟩

theorem scan_some {test : Bytes → Bool} (first : s.scan test b = some i) :
    i < numItemsPerEntry ∧ test (s.hashTable b i) = true :=
  ⟨List.mem_range.mp (List.mem_of_find?_eq_some first),
    List.find?_some (p := fun i => test (s.hashTable b i)) first⟩

theorem scan_none {test : Bytes → Bool} (missed : s.scan test b = none) (slot : i < numItemsPerEntry) :
    test (s.hashTable b i) = false := by
  simpa using List.find?_eq_none.mp missed i (List.mem_range.mpr slot)

theorem labels_store (label : Nat → Bytes → κ) (bucket : b < s.tableSize)
    (slot : i < numItemsPerEntry) (empty : s.hashTable b i = []) (present : fingerprint ≠ []) :
    labels s.tableSize label (s.write b i fingerprint).held =
      label b fingerprint ::ₘ labels s.tableSize label s.held :=
  labels_put bucket slot (fun _ _ => held_write_other) (held_eq_none.mpr empty)
    (held_write present)

theorem bag_store (bucket : b < s.tableSize) (slot : i < numItemsPerEntry)
    (empty : s.hashTable b i = []) (present : fingerprint ≠ []) :
    (s.write b i fingerprint).bag = classAt s.tableSize b fingerprint ::ₘ s.bag :=
  labels_store _ bucket slot empty present

theorem bag_clear (bucket : b < s.tableSize) (slot : i < numItemsPerEntry)
    (there : s.hashTable b i = fingerprint) (present : fingerprint ≠ []) :
    s.bag = classAt s.tableSize b fingerprint ::ₘ (s.write b i []).bag :=
  classes_take bucket slot (fun _ _ => held_write_other) (held_eq_some.mpr ⟨there,present⟩)
    held_clear

theorem labels_swap (label : Nat → Bytes → κ) (bucket : b < s.tableSize)
    (slot : i < numItemsPerEntry) (occupied : s.hashTable b i ≠ []) (present : fingerprint ≠ []) :
    label b (s.hashTable b i) ::ₘ labels s.tableSize label (s.write b i fingerprint).held =
      label b fingerprint ::ₘ labels s.tableSize label s.held := by
  have exchange : labels s.tableSize label (s.write b i fingerprint).held +
        (((s.held b i).map (label b)).toList : Multiset κ) =
      labels s.tableSize label s.held +
        ((((s.write b i fingerprint).held b i).map (label b)).toList : Multiset κ) :=
    labels_exchange bucket slot fun _ _ => held_write_other
  rw [held_write present,held_eq_some.mpr ⟨rfl,occupied⟩] at exchange
  simpa [add_comm _ ({_} : Multiset κ),Multiset.singleton_add] using exchange

theorem scan_full (missed : s.scan List.isEmpty b = none) (slot : i < numItemsPerEntry) :
    s.hashTable b i ≠ [] := by
  simpa using scan_none missed slot

theorem replace_tableSize (left : Nat) (rand : Nat → Nat) :
    (s.replace fingerprint b left rand).1.tableSize = s.tableSize := by
  induction left generalizing s fingerprint b rand with
  | zero => rfl
  | succ left ih =>
    rw [replace]
    split
    · rfl
    · exact ih _

/-- The replace phase with one fingerprint in hand, from a full bucket: a success puts
it down, a failure leaves with the last victim. The labels are those that a hop to the
next bucket keeps. -/
theorem replace_labels
    (hops : ∀ b < s.tableSize, ∀ f, label (getNextHashIndex s.tableSize b f) f = label b f)
    (bucket : b < s.tableSize)
    (full : ∀ i < numItemsPerEntry, s.hashTable b i ≠ []) (present : fingerprint ≠ [])
    (left : Nat) (rand : Nat → Nat) :
    ∃ hand : Option κ, hand.isNone = (s.replace fingerprint b left rand).2 ∧
      labels s.tableSize label (s.replace fingerprint b left rand).1.held +
          (hand.toList : Multiset κ) =
        label b fingerprint ::ₘ labels s.tableSize label s.held := by
  induction left generalizing s fingerprint b rand with
  | zero =>
    refine ⟨some (label b fingerprint),rfl,?_⟩
    simp [replace,add_comm (labels s.tableSize label s.held),Multiset.singleton_add]
  | succ left ih =>
    have slot : rand 0 % numItemsPerEntry < numItemsPerEntry := Nat.mod_lt _ (by decide)
    have victim := full _ slot
    have swap := labels_swap label bucket slot victim present
    have next := getNextHashIndex_lt (Nat.zero_lt_of_lt bucket) b
      (s.hashTable b (rand 0 % numItemsPerEntry))
    have onward := hops b bucket (s.hashTable b (rand 0 % numItemsPerEntry))
    rw [replace]
    split
    · rename_i i found
      obtain ⟨inside,empty⟩ := scan_some found
      have down := labels_store label
        (s := s.write b (rand 0 % numItemsPerEntry) fingerprint) next inside
        (by simpa using empty) victim
      refine ⟨none,rfl,?_⟩
      rw [← swap,← onward]
      simpa using down
    · rename_i missed
      obtain ⟨hand,lost,kept⟩ := ih (s := s.write b (rand 0 % numItemsPerEntry) fingerprint) hops
        next (fun i inside => scan_full missed inside) victim fun n => rand (n + 1)
      refine ⟨hand,lost,kept.trans ?_⟩
      rw [← swap,← onward]
      rfl

theorem replace_bag (power : s.tableSize = 2 ^ e) (bucket : b < s.tableSize)
    (full : ∀ i < numItemsPerEntry, s.hashTable b i ≠ []) (present : fingerprint ≠ [])
    (left : Nat) (rand : Nat → Nat) :
    ∃ hand : Option KeyClass, hand.isNone = (s.replace fingerprint b left rand).2 ∧
      (s.replace fingerprint b left rand).1.bag + (hand.toList : Multiset KeyClass) =
        classAt s.tableSize b fingerprint ::ₘ s.bag := by
  rw [bag,replace_tableSize]
  exact replace_labels (fun b inside f => classAt_alternate power inside f) bucket full present left
    rand

end

section

variable {s : SequentialFilter} {md5Fingerprint : Bytes → Bytes}

theorem home_lt (power : s.tableSize = 2 ^ e) (key : Bytes) :
    (jenkinsHash key).toNat % s.tableSize < s.tableSize :=
  Nat.mod_lt _ (power ▸ Nat.two_pow_pos e)

theorem insert_bag (power : s.tableSize = 2 ^ e) (nonempty : ∀ key, md5Fingerprint key ≠ [])
    (key : Bytes) (rand : Nat → Nat) (stored : (s.insert md5Fingerprint key rand).2 = true) :
    (s.insert md5Fingerprint key rand).1.bag =
      keyClass s.tableSize md5Fingerprint key ::ₘ s.bag := by
  have home := home_lt power key
  have present := nonempty key
  have onward := classAt_alternate power home (md5Fingerprint key)
  have next := getNextHashIndex_lt (Nat.zero_lt_of_lt home) ((jenkinsHash key).toNat % s.tableSize)
    (md5Fingerprint key)
  unfold insert at stored ⊢
  dsimp only at stored ⊢
  rw [keyClass]
  split
  · rename_i i found
    obtain ⟨inside,empty⟩ := scan_some found
    exact bag_store home inside (by simpa using empty) present
  · rename_i first
    rw [first] at stored
    dsimp only at stored
    split
    · rename_i i found
      obtain ⟨inside,empty⟩ := scan_some found
      rw [← onward]
      exact bag_store next inside (by simpa using empty) present
    · rename_i second
      rw [second] at stored
      dsimp only at stored
      split at stored
      · rename_i flag
        obtain ⟨hand,lost,kept⟩ := replace_bag power home (fun i inside => scan_full first inside)
          present numMaxKicks fun n => rand (n + 1)
        rw [stored,Option.isNone_iff_eq_none] at lost
        rw [if_pos flag,← kept,lost]
        simp
      · rename_i flag
        obtain ⟨hand,lost,kept⟩ := replace_bag power next (fun i inside => scan_full second inside)
          present numMaxKicks fun n => rand (n + 1)
        rw [stored,Option.isNone_iff_eq_none] at lost
        rw [if_neg flag,← onward,← kept,lost]
        simp

/-- The two scans of `find` and `remove` meet the fingerprint of a key whose class is
in the bag. -/
theorem scan_classes (power : s.tableSize = 2 ^ e) (nonempty : ∀ key, md5Fingerprint key ≠ [])
    (test : Bytes → Bool) (key : Bytes)
    (tests : ∀ str, test str = true ↔ str = md5Fingerprint key) :
    keyClass s.tableSize md5Fingerprint key ∈ s.bag ↔
      s.scan test ((jenkinsHash key).toNat % s.tableSize) ≠ none ∨
        s.scan test (getNextHashIndex s.tableSize ((jenkinsHash key).toNat % s.tableSize)
          (md5Fingerprint key)) ≠ none := by
  have meets (b : Nat) : s.scan test b ≠ none ↔
      ∃ i < numItemsPerEntry, s.held b i = some (md5Fingerprint key) := by
    simp [scan,tests,held_eq_some,nonempty key]
  rw [keyClass,bag,mem_classes power (home_lt power key),meets,meets]
  constructor
  · rintro ⟨i,inside,here | there⟩
    · exact .inl ⟨i,inside,here⟩
    · exact .inr ⟨i,inside,there⟩
  · rintro (⟨i,inside,here⟩ | ⟨i,inside,there⟩)
    · exact ⟨i,inside,.inl here⟩
    · exact ⟨i,inside,.inr there⟩

theorem find_iff (power : s.tableSize = 2 ^ e) (nonempty : ∀ key, md5Fingerprint key ≠ [])
    (key : Bytes) :
    s.find md5Fingerprint key = true ↔ keyClass s.tableSize md5Fingerprint key ∈ s.bag := by
  rw [scan_classes power nonempty (· = md5Fingerprint key) key (by simp)]
  unfold find
  dsimp only
  split
  · rename_i found
    simp [found]
  · rename_i first
    split <;> simp_all

theorem remove_bag (power : s.tableSize = 2 ^ e) (nonempty : ∀ key, md5Fingerprint key ≠ [])
    (key : Bytes) :
    (∃ removed, s.remove md5Fingerprint key = (removed,true) ∧
      s.bag = keyClass s.tableSize md5Fingerprint key ::ₘ removed.bag) ∨
    s.remove md5Fingerprint key = (s,false) ∧
      keyClass s.tableSize md5Fingerprint key ∉ s.bag := by
  have home := home_lt power key
  have present := nonempty key
  have onward := classAt_alternate power home (md5Fingerprint key)
  have next := getNextHashIndex_lt (Nat.zero_lt_of_lt home) ((jenkinsHash key).toNat % s.tableSize)
    (md5Fingerprint key)
  have tests (str : Bytes) :
      decide (str.length ≠ 0 ∧ str = md5Fingerprint key) = true ↔ str = md5Fingerprint key := by
    simp only [decide_eq_true_eq,and_iff_right_iff_imp]
    rintro rfl
    simpa using present
  unfold remove
  dsimp only
  split
  · rename_i i found
    obtain ⟨inside,there⟩ := scan_some found
    exact .inl ⟨_,rfl,bag_clear home inside ((tests _).mp there) present⟩
  · rename_i first
    split
    · rename_i i found
      obtain ⟨inside,there⟩ := scan_some found
      refine .inl ⟨_,rfl,?_⟩
      rw [keyClass,← onward]
      exact bag_clear next inside ((tests _).mp there) present
    · rename_i second
      refine .inr ⟨rfl,?_⟩
      rw [scan_classes power nonempty _ key tests]
      simp only [first,second,ne_eq,not_true_eq_false,or_self,not_false_eq_true]

end

section

variable {md5Fingerprint : Bytes → Bytes}

theorem insert_tableSize (s : SequentialFilter) (key : Bytes) (rand : Nat → Nat) :
    (s.insert md5Fingerprint key rand).1.tableSize = s.tableSize := by
  unfold insert
  dsimp only
  split
  · rfl
  · split
    · rfl
    · exact replace_tableSize _ _

theorem remove_tableSize (s : SequentialFilter) (key : Bytes) :
    (s.remove md5Fingerprint key).1.tableSize = s.tableSize := by
  unfold remove
  dsimp only
  split
  · rfl
  · split <;> rfl

theorem runs_tableSize (run : Runs md5Fingerprint capacity events s) : s.tableSize = capacity := by
  induction run with
  | start => rfl
  | insert _ key rand ih => exact (insert_tableSize _ key rand).trans ih
  | find _ _ ih => exact ih
  | remove _ key ih => exact (remove_tableSize _ key).trans ih

/-- A run that refuses no insertion replays on the bag. -/
theorem runs_replay (power : capacity = 2 ^ e) (nonempty : ∀ key, md5Fingerprint key ≠ [])
    (run : Runs md5Fingerprint capacity events s) (stored : ∀ key, (.insert key,false) ∉ events) :
    Bag.Replay (Bag.relabel (keyClass capacity md5Fingerprint) events) s.bag := by
  induction run with
  | start =>
    rw [bag_new]
    exact .start
  | @insert events s past key rand ih =>
    have size := runs_tableSize past
    have accepted : (s.insert md5Fingerprint key rand).2 = true := by
      by_contra refused
      exact stored key (by simp [refused])
    have kept := insert_bag (size.trans power) nonempty key rand accepted
    rw [size] at kept
    rw [accepted,kept]
    exact .step (ih fun other member => stored other (List.mem_cons_of_mem _ member)) .stored
  | @find events s past key ih =>
    have size := runs_tableSize past
    have answer := find_iff (size.trans power) nonempty key
    rw [size] at answer
    have decided : s.find md5Fingerprint key =
        decide (keyClass capacity md5Fingerprint key ∈ s.bag) := by
      rw [Bool.eq_iff_iff,answer,decide_eq_true_eq]
    rw [decided]
    exact .step (ih fun other member => stored other (List.mem_cons_of_mem _ member)) .found
  | @remove events s past key ih =>
    have size := runs_tableSize past
    have replay := ih fun other member => stored other (List.mem_cons_of_mem _ member)
    rcases remove_bag (size.trans power) nonempty key with ⟨removed,now,kept⟩ | ⟨now,absent⟩
    · rw [size] at kept
      have member : keyClass capacity md5Fingerprint key ∈ s.bag :=
        kept ▸ Multiset.mem_cons_self _ _
      have rest : removed.bag = s.bag.erase (keyClass capacity md5Fingerprint key) := by
        rw [kept,Multiset.erase_cons_head]
      rw [now]
      exact rest ▸ .step replay (.removed member)
    · rw [size] at absent
      rw [now]
      exact .step replay (.missing absent)

/-- After any run that refuses no insertion the table is the bag of the classes put in
and not taken out; searches and removals answer for it, and a removal takes one copy. -/
theorem sequential_refines_bag (power : capacity = 2 ^ e)
    (nonempty : ∀ key, md5Fingerprint key ≠ [])
    (run : Runs md5Fingerprint capacity events s) (stored : ∀ key, (.insert key,false) ∉ events) :
    s.bag + (Bag.removed events).map (keyClass capacity md5Fingerprint) =
      (Bag.inserted events).map (keyClass capacity md5Fingerprint) ∧
    ∀ key,
      (s.find md5Fingerprint key = true ↔ keyClass capacity md5Fingerprint key ∈ s.bag) ∧
      ((s.remove md5Fingerprint key).2 = true ↔ keyClass capacity md5Fingerprint key ∈ s.bag) ∧
      (s.remove md5Fingerprint key).1.bag = s.bag.erase (keyClass capacity md5Fingerprint key) := by
  have size := runs_tableSize run
  refine ⟨?_,fun key => ⟨?_,?_⟩⟩
  · have balance := (runs_replay power nonempty run stored).balance
    rwa [Bag.removed_relabel,Bag.inserted_relabel] at balance
  · have answer := find_iff (size.trans power) nonempty key
    rwa [size] at answer
  · rcases remove_bag (size.trans power) nonempty key with ⟨removed,now,kept⟩ | ⟨now,absent⟩
    · rw [size] at kept
      rw [now,kept]
      simp
    · rw [size] at absent
      rw [now]
      simp [absent,Multiset.erase_of_notMem]

/-- The calls one after another, with every `rand()` 0; the newest is the first. -/
def perform (md5Fingerprint : Bytes → Bytes) (capacity : Nat) :
    List (Bag.Op Bytes) → List (Bag.Op Bytes × Bool) × SequentialFilter
  | [] => ([],new capacity)
  | .insert key :: calls =>
    let past := perform md5Fingerprint capacity calls
    ((.insert key,(past.2.insert md5Fingerprint key fun _ => 0).2) :: past.1,
      (past.2.insert md5Fingerprint key fun _ => 0).1)
  | .find key :: calls =>
    let past := perform md5Fingerprint capacity calls
    ((.find key,past.2.find md5Fingerprint key) :: past.1,past.2)
  | .remove key :: calls =>
    let past := perform md5Fingerprint capacity calls
    ((.remove key,(past.2.remove md5Fingerprint key).2) :: past.1,
      (past.2.remove md5Fingerprint key).1)

theorem perform_runs (md5Fingerprint : Bytes → Bytes) (capacity : Nat)
    (calls : List (Bag.Op Bytes)) : Runs md5Fingerprint capacity
      (perform md5Fingerprint capacity calls).1 (perform md5Fingerprint capacity calls).2 := by
  induction calls with
  | nil => exact .start
  | cons call calls ih =>
    cases call with
    | insert key => exact .insert ih key _
    | find key => exact .find ih key
    | remove key => exact .remove ih key

/-- Bucket 0 fills up with `a` and three `f`, and a fourth `f` kicks `a` out. -/
def kickingCalls : List (Bag.Op Bytes) :=
  [.insert keyF,.insert keyF,.insert keyF,.insert keyF,.insert keyA]

/-- Then `a` is found and an `f` removed. -/
def kickedCalls : List (Bag.Op Bytes) := .remove keyF :: .find keyA :: kickingCalls

theorem kicked_keys_bag :
    (perform sampleMd5 2 kickingCalls).2.hashTable 1 0 = sampleMd5 keyA ∧
      (perform sampleMd5 2 kickedCalls).2.bag =
        keyClass 2 sampleMd5 keyA ::ₘ Multiset.replicate 3 (keyClass 2 sampleMd5 keyF) ∧
      (perform sampleMd5 2 kickedCalls).2.find sampleMd5 keyA = true ∧
      ((perform sampleMd5 2 kickedCalls).2.remove sampleMd5 keyC).2 = false := by
  have told : (perform sampleMd5 2 kickedCalls).1 =
      [(.remove keyF,true),(.find keyA,true),(.insert keyF,true),(.insert keyF,true),
        (.insert keyF,true),(.insert keyF,true),(.insert keyA,true)] := by
    decide +kernel
  obtain ⟨balance,answers⟩ := sequential_refines_bag (e := 1) rfl sampleMd5_nonempty
    (perform_runs sampleMd5 2 kickedCalls) (by simp [told])
  have bag : (perform sampleMd5 2 kickedCalls).2.bag =
      keyClass 2 sampleMd5 keyA ::ₘ Multiset.replicate 3 (keyClass 2 sampleMd5 keyF) := by
    have removed : Bag.removed (perform sampleMd5 2 kickedCalls).1 = {keyF} := by rw [told]; rfl
    have inserted : Bag.inserted (perform sampleMd5 2 kickedCalls).1 =
        keyA ::ₘ keyF ::ₘ Multiset.replicate 3 keyF := by
      rw [told]
      decide
    rw [removed,inserted] at balance
    simp only [Multiset.map_singleton,Multiset.map_cons,Multiset.map_replicate] at balance
    rw [Multiset.cons_swap,← Multiset.singleton_add,add_comm {_}] at balance
    exact add_right_cancel balance
  have apart : keyClass 2 sampleMd5 keyC ∉ (perform sampleMd5 2 kickedCalls).2.bag := by
    rw [bag]
    decide +kernel
  refine ⟨by decide +kernel,bag,(answers keyA).1.mpr ?_,?_⟩
  · rw [bag]
    exact Multiset.mem_cons_self _ _
  · exact Bool.eq_false_of_not_eq_true fun taken => apart ((answers keyC).2.1.mp taken)

end

section

variable {s : SequentialFilter} {md5Fingerprint : Bytes → Bytes}

/-- A refused insertion found both buckets full and went through all its kicks. -/
theorem insert_refused {key : Bytes} {rand : Nat → Nat}
    (refused : (s.insert md5Fingerprint key rand).2 = false) :
    let hash1 := (jenkinsHash key).toNat % s.tableSize
    let hash2 := getNextHashIndex s.tableSize hash1 (md5Fingerprint key)
    s.scan List.isEmpty hash1 = none ∧ s.scan List.isEmpty hash2 = none ∧
      s.insert md5Fingerprint key rand = s.replace (md5Fingerprint key)
        (if rand 0 % 2 = 0 then hash1 else hash2) numMaxKicks fun n => rand (n + 1) := by
  unfold insert at refused ⊢
  dsimp only at refused ⊢
  cases first : s.scan List.isEmpty ((jenkinsHash key).toNat % s.tableSize) with
  | some i => simp [first] at refused
  | none =>
    rw [first] at refused
    dsimp only at refused ⊢
    cases second : s.scan List.isEmpty (getNextHashIndex s.tableSize
        ((jenkinsHash key).toNat % s.tableSize) (md5Fingerprint key)) with
    | some i => simp [second] at refused
    | none => exact ⟨rfl,rfl,rfl⟩

/-- A refused insertion met two full buckets. It has put the new fingerprint in and dropped
one: a stored one, or the new one when the kicks came back to it. -/
theorem refused_insert_drops (positive : 0 < s.tableSize)
    (nonempty : ∀ key, md5Fingerprint key ≠ []) {key : Bytes} {rand : Nat → Nat}
    (refused : (s.insert md5Fingerprint key rand).2 = false) :
    (∀ i < numItemsPerEntry, s.hashTable ((jenkinsHash key).toNat % s.tableSize) i ≠ [] ∧
      s.hashTable (getNextHashIndex s.tableSize ((jenkinsHash key).toNat % s.tableSize)
        (md5Fingerprint key)) i ≠ []) ∧
    ∃ dropped ∈ md5Fingerprint key ::ₘ s.fingerprints,
      dropped ::ₘ (s.insert md5Fingerprint key rand).1.fingerprints =
        md5Fingerprint key ::ₘ s.fingerprints := by
  obtain ⟨first,second,kicks⟩ := insert_refused refused
  refine ⟨fun i inside => ⟨scan_full first inside,scan_full second inside⟩,?_⟩
  have home : (jenkinsHash key).toNat % s.tableSize < s.tableSize := Nat.mod_lt _ positive
  have start : ∃ hand : Option Bytes, hand.isNone = (s.insert md5Fingerprint key rand).2 ∧
      (s.insert md5Fingerprint key rand).1.fingerprints + (hand.toList : Multiset Bytes) =
        md5Fingerprint key ::ₘ s.fingerprints := by
    rw [kicks,fingerprints,replace_tableSize]
    refine replace_labels (fun _ _ _ => rfl) ?_ ?_ (nonempty key) numMaxKicks _
    · split
      · exact home
      · exact getNextHashIndex_lt positive _ _
    · intro i inside
      split
      · exact scan_full first inside
      · exact scan_full second inside
  obtain ⟨hand,lost,kept⟩ := start
  rw [refused] at lost
  cases hand with
  | none => contradiction
  | some dropped =>
    have whole : dropped ::ₘ (s.insert md5Fingerprint key rand).1.fingerprints =
        md5Fingerprint key ::ₘ s.fingerprints := by
      rw [← kept,Option.toList_some,Multiset.coe_singleton,add_comm,Multiset.singleton_add]
    exact ⟨dropped,whole ▸ Multiset.mem_cons_self _ _,whole⟩

/-- One bucket, with `a`, `c` and two `f`. -/
def fullFilter : SequentialFilter :=
  ([keyA,keyC,keyF,keyF].foldl (fun s key => (s.insert sampleMd5 key fun _ => 0).1) (new 1))

theorem full_filter_runs : Runs sampleMd5 1
    [(.insert keyF,true),(.insert keyF,true),(.insert keyC,true),(.insert keyA,true)] fullFilter :=
  .insert (.insert (.insert (.insert .start keyA fun _ => 0) keyC fun _ => 0) keyF fun _ => 0) keyF
    fun _ => 0

theorem full_filter_refuses : ∃ dropped ∈ sampleMd5 keyF ::ₘ fullFilter.fingerprints,
    dropped ::ₘ (fullFilter.insert sampleMd5 keyF fun _ => 2).1.fingerprints =
      sampleMd5 keyF ::ₘ fullFilter.fingerprints :=
  (refused_insert_drops (by decide) sampleMd5_nonempty (by decide +kernel)).2

theorem refused_insert_not_atomic : ¬∀ capacity > 0, ∀ events s, Runs sampleMd5 capacity events s →
    ∀ key rand, (s.insert sampleMd5 key rand).2 = false →
      (s.insert sampleMd5 key rand).1.fingerprints = s.fingerprints := by
  intro atomic
  have same := atomic 1 (by decide) _ _ full_filter_runs keyF (fun n => if n = 10 then 0 else 2)
    (by decide +kernel)
  have lost : sampleMd5 keyA ∉
      (fullFilter.insert sampleMd5 keyF fun n => if n = 10 then 0 else 2).1.fingerprints := by
    decide +kernel
  have stored : sampleMd5 keyA ∈ fullFilter.fingerprints := by decide +kernel
  exact lost (same ▸ stored)

end

end SequentialFilter

end CuckooFilter
