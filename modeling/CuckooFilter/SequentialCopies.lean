import CuckooFilter.Sequential

/-! Copies of one key in the sequential filter. The first bucket's slots and then the
second's are eight positions; insertions fill them in order and removals empty them in
the same order. -/
namespace CuckooFilter

namespace SequentialFilter

variable (md5Fingerprint : Bytes → Bytes)

/-- `hash1` and `hash2` of the three operations. -/
def hash1 (s : SequentialFilter) (key : Bytes) : Nat := (jenkinsHash key).toNat % s.tableSize

def hash2 (s : SequentialFilter) (key : Bytes) : Nat :=
  getNextHashIndex s.tableSize (s.hash1 key) (md5Fingerprint key)

/-- The filter after `n` insertions; `rands n` are the outcomes of `rand()` in the next. -/
def inserts (s : SequentialFilter) (key : Bytes) (rands : Nat → Nat → Nat) : Nat → SequentialFilter
  | 0 => s
  | n + 1 => ((s.inserts key rands n).insert md5Fingerprint key (rands n)).1

def removes (s : SequentialFilter) (key : Bytes) : Nat → SequentialFilter
  | 0 => s
  | n + 1 => ((s.removes key n).remove md5Fingerprint key).1

def Vacant (s : SequentialFilter) (key : Bytes) : Prop :=
  ∀ i < numItemsPerEntry,
    s.hashTable (s.hash1 key) i = [] ∧ s.hashTable (s.hash2 md5Fingerprint key) i = []

/-- Two buckets' worth of copies go in and come out again. -/
structure HoldsCopies (s : SequentialFilter) (key : Bytes) (rands : Nat → Nat → Nat) : Prop where
  inserted : ∀ n < 2 * numItemsPerEntry,
    ((s.inserts md5Fingerprint key rands n).insert md5Fingerprint key (rands n)).2 = true
  removed : ∀ n, 1 ≤ n → n ≤ 2 * numItemsPerEntry →
    (((s.inserts md5Fingerprint key rands (2 * numItemsPerEntry)).removes md5Fingerprint key
      (n - 1)).remove md5Fingerprint key).2 = true
  found : ∀ n, 1 ≤ n → n ≤ 2 * numItemsPerEntry →
    (((s.inserts md5Fingerprint key rands (2 * numItemsPerEntry)).removes md5Fingerprint key
      n).find md5Fingerprint key = true ↔ n < 2 * numItemsPerEntry)
  restored : (s.inserts md5Fingerprint key rands (2 * numItemsPerEntry)).removes md5Fingerprint key
    (2 * numItemsPerEntry) = s

/-- A fingerprint in the positions from `lo` to `hi`. -/
def spread (s : SequentialFilter) (b1 b2 : Nat) (fingerprint : Bytes) (lo hi : Nat) :
    SequentialFilter :=
  { s with hashTable := fun b i =>
      if i < numItemsPerEntry ∧ (b = b1 ∧ lo ≤ i ∧ i < hi ∨
        b = b2 ∧ lo ≤ numItemsPerEntry + i ∧ numItemsPerEntry + i < hi) then fingerprint
      else s.hashTable b i }

section

variable {s : SequentialFilter} {md5Fingerprint : Bytes → Bytes} {key fingerprint : Bytes}
variable {b b1 b2 i n lo hi : Nat} {test : Bytes → Bool} {rand : Nat → Nat}

@[simp] theorem spread_tableSize : (s.spread b1 b2 fingerprint lo hi).tableSize = s.tableSize := rfl

@[simp] theorem spread_hash1 : (s.spread b1 b2 fingerprint lo hi).hash1 key = s.hash1 key := rfl

@[simp] theorem spread_hash2 :
    (s.spread b1 b2 fingerprint lo hi).hash2 md5Fingerprint key = s.hash2 md5Fingerprint key := rfl

theorem scan_eq_some (inside : i < numItemsPerEntry) (passes : test (s.hashTable b i) = true)
    (before : ∀ j < i, test (s.hashTable b j) = false) : s.scan test b = some i :=
  List.find?_range_eq_some.mpr ⟨passes,List.mem_range.mpr inside,
    fun j earlier => by simp [before j earlier]⟩

theorem scan_eq_none (fails : ∀ i < numItemsPerEntry, test (s.hashTable b i) = false) :
    s.scan test b = none :=
  List.find?_range_eq_none.mpr fun i inside => by simp [fails i inside]

theorem insert_first (found : s.scan List.isEmpty (s.hash1 key) = some i) :
    s.insert md5Fingerprint key rand =
      (s.write (s.hash1 key) i (md5Fingerprint key),true) := by
  rw [hash1] at found ⊢
  simp [insert,found]

theorem insert_second (missed : s.scan List.isEmpty (s.hash1 key) = none)
    (found : s.scan List.isEmpty (s.hash2 md5Fingerprint key) = some i) :
    s.insert md5Fingerprint key rand =
      (s.write (s.hash2 md5Fingerprint key) i (md5Fingerprint key),true) := by
  rw [hash1] at missed
  rw [hash2,hash1] at found ⊢
  simp [insert,missed,found]

theorem insert_full (first : s.scan List.isEmpty (s.hash1 key) = none)
    (second : s.scan List.isEmpty (s.hash2 md5Fingerprint key) = none) :
    s.insert md5Fingerprint key rand = s.replace (md5Fingerprint key)
      (if rand 0 % 2 = 0 then s.hash1 key else s.hash2 md5Fingerprint key) numMaxKicks
      fun n => rand (n + 1) := by
  rw [hash1] at first ⊢
  rw [hash2,hash1] at second ⊢
  simp [insert,first,second]

theorem remove_first
    (found : s.scan (fun str => str.length ≠ 0 ∧ str = md5Fingerprint key) (s.hash1 key) = some i) :
    s.remove md5Fingerprint key = (s.write (s.hash1 key) i [],true) := by
  rw [hash1] at found ⊢
  unfold remove
  dsimp only
  rw [found]

theorem remove_second
    (missed : s.scan (fun str => str.length ≠ 0 ∧ str = md5Fingerprint key) (s.hash1 key) = none)
    (found : s.scan (fun str => str.length ≠ 0 ∧ str = md5Fingerprint key)
      (s.hash2 md5Fingerprint key) = some i) :
    s.remove md5Fingerprint key = (s.write (s.hash2 md5Fingerprint key) i [],true) := by
  rw [hash1] at missed
  rw [hash2,hash1] at found ⊢
  unfold remove
  dsimp only
  rw [missed,found]

theorem spread_empty : s.spread b1 b2 fingerprint n n = s := by
  simp only [spread]
  congr 1
  funext b i
  rw [if_neg (by omega)]

theorem spread_first (empty : s.hashTable b1 i = []) (slot : i < numItemsPerEntry)
    (apart : b1 ≠ b2 ∨ hi ≤ numItemsPerEntry) :
    (s.spread b1 b2 fingerprint lo hi).hashTable b1 i =
      if lo ≤ i ∧ i < hi then fingerprint else [] := by
  simp only [spread]
  grind

theorem spread_second (empty : s.hashTable b2 i = []) (slot : i < numItemsPerEntry)
    (apart : b1 ≠ b2) :
    (s.spread b1 b2 fingerprint lo hi).hashTable b2 i =
      if lo ≤ numItemsPerEntry + i ∧ numItemsPerEntry + i < hi then fingerprint else [] := by
  simp only [spread]
  grind

theorem write_first (slot : n < numItemsPerEntry) :
    (s.spread b1 b2 fingerprint 0 n).write b1 n fingerprint =
      s.spread b1 b2 fingerprint 0 (n + 1) := by
  simp only [spread,write,SequentialFilter.mk.injEq,true_and]
  funext b i
  grind

theorem write_second (past : numItemsPerEntry ≤ n) (position : n < 2 * numItemsPerEntry) :
    (s.spread b1 b2 fingerprint 0 n).write b2 (n - numItemsPerEntry) fingerprint =
      s.spread b1 b2 fingerprint 0 (n + 1) := by
  simp only [spread,write,SequentialFilter.mk.injEq,true_and]
  funext b i
  grind

theorem clear_first (slot : n < numItemsPerEntry) (empty : s.hashTable b1 n = [])
    (apart : b1 ≠ b2) :
    (s.spread b1 b2 fingerprint n hi).write b1 n [] = s.spread b1 b2 fingerprint (n + 1) hi := by
  simp only [spread,write,SequentialFilter.mk.injEq,true_and]
  funext b i
  grind

theorem clear_second (past : numItemsPerEntry ≤ n)
    (empty : s.hashTable b2 (n - numItemsPerEntry) = []) :
    (s.spread b1 b2 fingerprint n hi).write b2 (n - numItemsPerEntry) [] =
      s.spread b1 b2 fingerprint (n + 1) hi := by
  simp only [spread,write,SequentialFilter.mk.injEq,true_and]
  funext b i
  grind

theorem insert_spread_first (vacant : s.Vacant md5Fingerprint key)
    (nonempty : md5Fingerprint key ≠ []) (slot : n < numItemsPerEntry) (rand : Nat → Nat) :
    (s.spread (s.hash1 key) (s.hash2 md5Fingerprint key) (md5Fingerprint key) 0 n).insert
        md5Fingerprint key rand =
      (s.spread (s.hash1 key) (s.hash2 md5Fingerprint key) (md5Fingerprint key) 0 (n + 1),true) := by
  have table (i : Nat) (inside : i < numItemsPerEntry) :
      (s.spread (s.hash1 key) (s.hash2 md5Fingerprint key) (md5Fingerprint key) 0 n).hashTable
        (s.hash1 key) i = if 0 ≤ i ∧ i < n then md5Fingerprint key else [] :=
    spread_first (vacant i inside).1 inside (.inr (by omega))
  rw [insert_first (i := n),spread_hash1,write_first slot]
  refine scan_eq_some slot ?_ fun j earlier => ?_
  · rw [spread_hash1,table n slot,if_neg (by omega)]
    rfl
  · rw [spread_hash1,table j (by omega),if_pos (by omega)]
    simpa using nonempty

theorem insert_spread_second (vacant : s.Vacant md5Fingerprint key)
    (nonempty : md5Fingerprint key ≠ []) (apart : s.hash1 key ≠ s.hash2 md5Fingerprint key)
    (past : numItemsPerEntry ≤ n) (position : n < 2 * numItemsPerEntry) (rand : Nat → Nat) :
    (s.spread (s.hash1 key) (s.hash2 md5Fingerprint key) (md5Fingerprint key) 0 n).insert
        md5Fingerprint key rand =
      (s.spread (s.hash1 key) (s.hash2 md5Fingerprint key) (md5Fingerprint key) 0 (n + 1),true) := by
  rw [insert_second (i := n - numItemsPerEntry),spread_hash2,write_second past position]
  · refine scan_eq_none fun i slot => ?_
    rw [spread_hash1,spread_first (vacant i slot).1 slot (.inl apart),if_pos (by omega)]
    simpa using nonempty
  · have slot : n - numItemsPerEntry < numItemsPerEntry := by omega
    refine scan_eq_some slot ?_ fun j earlier => ?_
    · rw [spread_hash2,spread_second (vacant _ slot).2 slot apart,if_neg (by omega)]
      rfl
    · rw [spread_hash2,spread_second (vacant j (by omega)).2 (by omega) apart,if_pos (by omega)]
      simpa using nonempty

theorem insert_spread (vacant : s.Vacant md5Fingerprint key) (nonempty : md5Fingerprint key ≠ [])
    (apart : s.hash1 key ≠ s.hash2 md5Fingerprint key) (position : n < 2 * numItemsPerEntry)
    (rand : Nat → Nat) :
    (s.spread (s.hash1 key) (s.hash2 md5Fingerprint key) (md5Fingerprint key) 0 n).insert
        md5Fingerprint key rand =
      (s.spread (s.hash1 key) (s.hash2 md5Fingerprint key) (md5Fingerprint key) 0 (n + 1),true) := by
  by_cases slot : n < numItemsPerEntry
  · exact insert_spread_first vacant nonempty slot rand
  · exact insert_spread_second vacant nonempty apart (by omega) position rand

theorem remove_spread (vacant : s.Vacant md5Fingerprint key) (nonempty : md5Fingerprint key ≠ [])
    (apart : s.hash1 key ≠ s.hash2 md5Fingerprint key) (position : n < 2 * numItemsPerEntry) :
    (s.spread (s.hash1 key) (s.hash2 md5Fingerprint key) (md5Fingerprint key) n
        (2 * numItemsPerEntry)).remove md5Fingerprint key =
      (s.spread (s.hash1 key) (s.hash2 md5Fingerprint key) (md5Fingerprint key) (n + 1)
        (2 * numItemsPerEntry),true) := by
  have items : numItemsPerEntry = 4 := rfl
  by_cases slot : n < numItemsPerEntry
  · rw [remove_first (i := n),spread_hash1,clear_first slot (vacant n slot).1 apart]
    refine scan_eq_some slot ?_ fun j earlier => ?_
    · rw [spread_hash1,spread_first (vacant n slot).1 slot (.inl apart),if_pos (by omega)]
      simpa using nonempty
    · rw [spread_hash1,spread_first (vacant j (by omega)).1 (by omega) (.inl apart),
        if_neg (by omega)]
      rfl
  · have slot' : n - numItemsPerEntry < numItemsPerEntry := by omega
    rw [remove_second (i := n - numItemsPerEntry),spread_hash2,
      clear_second (by omega) (vacant _ slot').2]
    · refine scan_eq_none fun i inside => ?_
      rw [spread_hash1,spread_first (vacant i inside).1 inside (.inl apart),if_neg (by omega)]
      rfl
    · refine scan_eq_some slot' ?_ fun j earlier => ?_
      · rw [spread_hash2,spread_second (vacant _ slot').2 slot' apart,if_pos (by omega)]
        simpa using nonempty
      · rw [spread_hash2,spread_second (vacant j (by omega)).2 (by omega) apart,
          if_neg (by omega)]
        rfl

theorem find_iff_slot : s.find md5Fingerprint key = true ↔ ∃ i < numItemsPerEntry,
    s.hashTable (s.hash1 key) i = md5Fingerprint key ∨
      s.hashTable (s.hash2 md5Fingerprint key) i = md5Fingerprint key := by
  have meets (b : Nat) : s.scan (· = md5Fingerprint key) b ≠ none ↔
      ∃ i < numItemsPerEntry, s.hashTable b i = md5Fingerprint key := by simp [scan]
  have split : s.find md5Fingerprint key = true ↔
      s.scan (· = md5Fingerprint key) (s.hash1 key) ≠ none ∨
        s.scan (· = md5Fingerprint key) (s.hash2 md5Fingerprint key) ≠ none := by
    rw [hash2,hash1]
    unfold find
    dsimp only
    split
    · rename_i found
      simp [found]
    · rename_i first
      split <;> simp_all
  rw [split,meets,meets]
  grind

theorem find_spread (vacant : s.Vacant md5Fingerprint key) (nonempty : md5Fingerprint key ≠ [])
    (apart : s.hash1 key ≠ s.hash2 md5Fingerprint key) :
    (s.spread (s.hash1 key) (s.hash2 md5Fingerprint key) (md5Fingerprint key) n
        (2 * numItemsPerEntry)).find md5Fingerprint key = true ↔ n < 2 * numItemsPerEntry := by
  have items : numItemsPerEntry = 4 := rfl
  rw [find_iff_slot,spread_hash1,spread_hash2]
  constructor
  · rintro ⟨i,slot,here | there⟩
    · rw [spread_first (vacant i slot).1 slot (.inl apart)] at here
      by_contra beyond
      rw [if_neg (by omega)] at here
      exact nonempty here.symm
    · rw [spread_second (vacant i slot).2 slot apart] at there
      by_contra beyond
      rw [if_neg (by omega)] at there
      exact nonempty there.symm
  · intro position
    refine ⟨numItemsPerEntry - 1,by omega,.inr ?_⟩
    rw [spread_second (vacant _ (by omega)).2 (by omega) apart,if_pos (by omega)]

theorem inserts_spread (vacant : s.Vacant md5Fingerprint key) (nonempty : md5Fingerprint key ≠ [])
    (apart : n ≤ numItemsPerEntry ∨ s.hash1 key ≠ s.hash2 md5Fingerprint key)
    (whole : n ≤ 2 * numItemsPerEntry) (rands : Nat → Nat → Nat) :
    s.inserts md5Fingerprint key rands n =
      s.spread (s.hash1 key) (s.hash2 md5Fingerprint key) (md5Fingerprint key) 0 n := by
  induction n with
  | zero => exact spread_empty.symm
  | succ n ih =>
    rw [inserts,ih (apart.imp_left (by omega)) (by omega)]
    rcases apart with first | apart
    · rw [insert_spread_first vacant nonempty (by omega)]
    · rw [insert_spread vacant nonempty apart (by omega)]

theorem removes_spread (vacant : s.Vacant md5Fingerprint key) (nonempty : md5Fingerprint key ≠ [])
    (apart : s.hash1 key ≠ s.hash2 md5Fingerprint key) (whole : n ≤ 2 * numItemsPerEntry) :
    (s.spread (s.hash1 key) (s.hash2 md5Fingerprint key) (md5Fingerprint key) 0
        (2 * numItemsPerEntry)).removes md5Fingerprint key n =
      s.spread (s.hash1 key) (s.hash2 md5Fingerprint key) (md5Fingerprint key) n
        (2 * numItemsPerEntry) := by
  induction n with
  | zero => rfl
  | succ n ih => rw [removes,ih (by omega),remove_spread vacant nonempty apart (by omega)]

/-- Victims of one bucket full of the fingerprint come back to it: the kicks change
nothing and give up. -/
theorem replace_stuck (full : ∀ i < numItemsPerEntry, s.hashTable b i = fingerprint)
    (back : getNextHashIndex s.tableSize b fingerprint = b) (nonempty : fingerprint ≠ [])
    (left : Nat) (rand : Nat → Nat) : s.replace fingerprint b left rand = (s,false) := by
  induction left generalizing rand with
  | zero => rfl
  | succ left ih =>
    have victim := full (rand 0 % numItemsPerEntry) (Nat.mod_lt _ (by decide))
    have unchanged : s.write b (rand 0 % numItemsPerEntry) fingerprint = s := by
      simp only [write]
      congr 1
      funext b' i
      split
      · rename_i here
        rw [here.1,here.2,victim]
      · rfl
    have missed : s.scan List.isEmpty b = none :=
      scan_eq_none fun i slot => by simpa [full i slot] using nonempty
    rw [replace]
    simp only [victim,back,unchanged,missed]
    exact ih _

/-- A power-of-two table gives one bucket twice exactly when the fingerprint's hash is a
multiple of its size. -/
theorem buckets_coincide (power : s.tableSize = 2 ^ e) (key : Bytes) :
    s.hash2 md5Fingerprint key = s.hash1 key ↔
      (jenkinsHash (md5Fingerprint key)).toNat % s.tableSize = 0 := by
  have home := home_lt power key
  have offset : (jenkinsHash (md5Fingerprint key)).toNat % s.tableSize < s.tableSize :=
    Nat.mod_lt _ (by omega)
  rw [hash2,hash1,getNextHashIndex]
  generalize (jenkinsHash key).toNat % s.tableSize = here at home ⊢
  generalize (jenkinsHash (md5Fingerprint key)).toNat % s.tableSize = g at offset ⊢
  have moved : here ^^^ g < s.tableSize := by
    rw [power] at home offset ⊢
    exact Nat.xor_lt_two_pow home offset
  rw [Nat.mod_eq_of_lt moved]
  constructor
  · intro same
    calc
      g = here ^^^ (here ^^^ g) := by rw [← Nat.xor_assoc,Nat.xor_self,Nat.zero_xor]
      _ = 0 := by rw [same,Nat.xor_self]
  · rintro rfl
    exact Nat.xor_zero _

/-- With one bucket for both, the insertion after its slots are used up is refused. -/
theorem fifth_insert_refused (vacant : s.Vacant md5Fingerprint key)
    (nonempty : md5Fingerprint key ≠ []) (same : s.hash2 md5Fingerprint key = s.hash1 key)
    (rands : Nat → Nat → Nat) (rand : Nat → Nat) :
    ((s.inserts md5Fingerprint key rands numItemsPerEntry).insert md5Fingerprint key rand).2 =
      false := by
  rw [inserts_spread vacant nonempty (.inl le_rfl) (by decide)]
  generalize loaded : s.spread (s.hash1 key) (s.hash2 md5Fingerprint key) (md5Fingerprint key) 0
    numItemsPerEntry = t
  have first : t.hash1 key = s.hash1 key := by rw [← loaded,spread_hash1]
  have second : t.hash2 md5Fingerprint key = s.hash1 key := by rw [← loaded,spread_hash2,same]
  have full : ∀ i < numItemsPerEntry, t.hashTable (s.hash1 key) i = md5Fingerprint key := by
    intro i slot
    rw [← loaded,spread_first (vacant i slot).1 slot (.inr le_rfl),if_pos ⟨by omega,slot⟩]
  have missed : t.scan List.isEmpty (s.hash1 key) = none :=
    scan_eq_none fun i slot => by simpa [full i slot] using nonempty
  have back : getNextHashIndex t.tableSize (s.hash1 key) (md5Fingerprint key) = s.hash1 key := by
    rw [← first]
    exact second.trans first.symm
  rw [insert_full (by rwa [first]) (by rwa [second]),first,second,ite_self,
    replace_stuck full back nonempty]

/-- Both buckets take their copies and give them back exactly when they are two. -/
theorem holds_copies_iff (power : s.tableSize = 2 ^ e) (vacant : s.Vacant md5Fingerprint key)
    (nonempty : md5Fingerprint key ≠ []) (rands : Nat → Nat → Nat) :
    s.HoldsCopies md5Fingerprint key rands ↔
      (jenkinsHash (md5Fingerprint key)).toNat % s.tableSize ≠ 0 := by
  rw [Ne,← buckets_coincide power key]
  constructor
  · intro holds same
    have accepted := holds.inserted numItemsPerEntry (by decide)
    rw [fifth_insert_refused vacant nonempty same] at accepted
    contradiction
  · intro distinct
    have apart : s.hash1 key ≠ s.hash2 md5Fingerprint key := fun same => distinct same.symm
    have filled := inserts_spread vacant nonempty (.inr apart) le_rfl rands
    refine ⟨fun n position => ?_,fun n first last => ?_,fun n first last => ?_,?_⟩
    · rw [inserts_spread vacant nonempty (.inr apart) (by omega),
        insert_spread vacant nonempty apart position]
    · rw [filled,removes_spread vacant nonempty apart (by omega),
        remove_spread vacant nonempty apart (by omega)]
    · rw [filled,removes_spread vacant nonempty apart last]
      exact find_spread vacant nonempty apart
    · rw [filled,removes_spread vacant nonempty apart le_rfl]
      exact spread_empty

theorem new_holds_copies : (new 2).HoldsCopies sampleMd5 keyA fun _ _ => 0 :=
  (holds_copies_iff (e := 1) rfl (fun _ _ => ⟨rfl,rfl⟩) (sampleMd5_nonempty keyA) _).mpr
    (by decide +kernel)

theorem copies_refused : ¬∀ e > 0, ∀ s : SequentialFilter, s.tableSize = 2 ^ e → ∀ key,
    s.Vacant sampleMd5 key → ∀ rands, s.HoldsCopies sampleMd5 key rands := by
  intro holds
  have copies := holds 1 (by decide) (new 2) rfl keyF (fun _ _ => ⟨rfl,rfl⟩) fun _ _ => 0
  have fifth := copies.inserted 4 (by decide)
  revert fifth
  decide +kernel

end

end SequentialFilter

end CuckooFilter
