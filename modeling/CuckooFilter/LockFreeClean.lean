import CuckooFilter.LockFreeChain
import CuckooFilter.Classes

/-! Tables between the operations of one thread: no marks, and every entry in one
slot. On such a table a search alone reads four pairs of slots and answers. -/
namespace CuckooFilter.LockFree

variable {cfg : Config} {tid : Nat} {m n : Memory}

/-- No slot of the table is marked, and no two have the same entry. -/
structure Memory.Clean (cfg : Config) (m : Memory) : Prop where
  unmarked : m.Unmarked cfg
  single : ∀ b i b' i', cfg.Slot b i → cfg.Slot b' i' → getRealPointer (m.hashTable b i) ≠ 0 →
    getRealPointer (m.hashTable b' i') = getRealPointer (m.hashTable b i) → b' = b ∧ i' = i

theorem clean_initial (cfg : Config) : Memory.initial.Clean cfg := by
  refine ⟨fun _ _ _ => getMarked_null,?_⟩
  simp [Memory.initial]

theorem Memory.Clean.table (clean : m.Clean cfg) (same : n.hashTable = m.hashTable) : n.Clean cfg := by
  refine ⟨clean.unmarked.table same,?_⟩
  rw [same]
  exact clean.single

theorem Memory.Clean.not_stuck (clean : m.Clean cfg) (slot : cfg.Slot b i) : ¬Stuck cfg m b i := by
  intro stuck
  have marked := stuck.1.1
  rw [clean.unmarked b i slot] at marked
  contradiction

/-- The answers of a search. -/
inductive Found (m : Memory) (f : FindFrame) : Flow FindFrame (Nat × TablePointer) → Prop where
  | hit (inside : location < 2 * numItemsPerEntry)
      (hits : Hits m f.fingerprint (f.bucketOf location) (location % numItemsPerEntry)) :
      Found m f (.returned (location,
        m.hashTable (f.bucketOf location) (location % numItemsPerEntry)))
  | missed (all : ∀ i < numItemsPerEntry,
        Misses m f.fingerprint f.hash1 i ∧ Misses m f.fingerprint f.hash2 i) :
      Found m f (.returned (2 * numItemsPerEntry,0))

theorem Found.alike {f : FindFrame} (found : Found m f flow) (same : Alike m n) :
    Found n f flow := by
  cases found with
  | hit inside hits =>
    rw [← same.table]
    refine .hit inside ?_
    simpa only [Hits,same.table,same.str] using hits
  | missed all =>
    refine .missed ?_
    simpa only [Misses,same.table,same.str] using all

/-- A search of a clean table, from any slot index on. -/
theorem find_from (clean : m.Clean cfg) {f : FindFrame} (first : f.hash1 < cfg.tableSize)
    (second : f.hash2 < cfg.tableSize) (same : Alike m n) (inside : i < numItemsPerEntry)
    (before : ∀ j < i, Misses m f.fingerprint f.hash1 j ∧ Misses m f.fingerprint f.hash2 j) :
    Ends (find cfg tid) (fun n flow => Alike m n ∧ Found m f flow) n
      (.running { f with slot := i, pc := .readFirst }) := by
  induction left : numItemsPerEntry - i generalizing i n with
  | zero => omega
  | succ k ih =>
    have tidy : n.Tidy cfg := clean.unmarked.tidy.table same.table
    refine Ends.bind ((find_slot (f := { f with slot := i, pc := .readFirst }) tidy rfl
      ⟨first,inside⟩ ⟨second,inside⟩).steady (find_steady cfg tid)) ?_
    rintro later flow ⟨outcome,steady⟩
    have whole (table : later.hashTable = n.hashTable) : Alike m later :=
      same.trans ⟨table,steady.heap⟩
    cases outcome with
    | first table hits =>
      have name : f.bucketOf i = f.hash1 := if_pos inside
      have index : i % numItemsPerEntry = i := Nat.mod_eq_of_lt inside
      simp only [Hits,same.table,same.str] at hits
      have answer : Found m f (.returned (i,m.hashTable (f.bucketOf i) (i % numItemsPerEntry))) :=
        .hit (by omega) (by rwa [name,index])
      rw [name,index] at answer
      exact .here ⟨whole table,same.table ▸ answer⟩
    | second table missed hits =>
      have name : f.bucketOf (i + numItemsPerEntry) = f.hash2 := if_neg (by omega)
      have index : (i + numItemsPerEntry) % numItemsPerEntry = i := by
        rw [Nat.add_mod_right,Nat.mod_eq_of_lt inside]
      simp only [Hits,same.table,same.str] at hits
      have answer : Found m f (.returned (i + numItemsPerEntry,
          m.hashTable (f.bucketOf (i + numItemsPerEntry))
            ((i + numItemsPerEntry) % numItemsPerEntry))) :=
        .hit (by omega) (by rwa [name,index])
      rw [name,index] at answer
      exact .here ⟨whole table,same.table ▸ answer⟩
    | passed table missed missed' =>
      simp only [Misses,same.table,same.str] at missed missed'
      have upto (j : Nat) (early : j < i + 1) :
          Misses m f.fingerprint f.hash1 j ∧ Misses m f.fingerprint f.hash2 j := by
        rcases Nat.lt_succ_iff_lt_or_eq.mp early with earlier | rfl
        · exact before j earlier
        · exact ⟨missed,missed'⟩
      unfold FindFrame.nextSlot
      by_cases more : i + 1 < numItemsPerEntry
      · rw [if_pos more]
        exact ih (whole table) more upto (show numItemsPerEntry - (i + 1) = k by omega)
      · rw [if_neg more]
        exact .here ⟨whole table,.missed fun j early => upto j (by omega)⟩
    | helped marked _ _ _ slot =>
      exact absurd marked (by simp [same.table,clean.unmarked _ _ slot])
    | blocked table stuck =>
      rcases stuck.2 with stuck | ⟨-,stuck⟩
      · exact absurd stuck ((clean.table same.table).not_stuck ⟨first,inside⟩)
      · exact absurd stuck ((clean.table same.table).not_stuck ⟨second,inside⟩)

theorem find_clean (clean : m.Clean cfg) (same : Alike m n) (key : Bytes) :
    Ends (find cfg tid) (fun n flow => Alike m n ∧ Found m (.enter cfg key) flow) n
      (.running (.enter cfg key)) :=
  find_from (f := .enter cfg key) clean (Nat.mod_lt _ cfg.positive)
    (getNextHashIndex_lt cfg.positive _ _) same (by decide) (by omega)

theorem Misses.not_hits (misses : Misses m string b i) : ¬Hits m string b i := by
  rintro ⟨present,-,same⟩
  rcases misses with empty | ⟨-,other⟩
  · exact present empty
  · exact other same

theorem find_home (clean : m.Clean cfg) (key : Bytes)
    (hits : Hits m (cfg.md5Fingerprint key) (FindFrame.enter cfg key).hash1 0) :
    Ends (find cfg tid) (fun n flow => Alike m n ∧
      flow = .returned (0,m.hashTable (FindFrame.enter cfg key).hash1 0)) m
      (.running (.enter cfg key)) := by
  have first : cfg.Slot (FindFrame.enter cfg key).hash1 0 := ⟨Nat.mod_lt _ cfg.positive,by decide⟩
  have second : cfg.Slot (FindFrame.enter cfg key).hash2 0 :=
    ⟨getNextHashIndex_lt cfg.positive _ _,by decide⟩
  refine ((find_slot (f := .enter cfg key) clean.unmarked.tidy rfl first second).steady
    (find_steady cfg tid)).mono ?_
  rintro n flow ⟨outcome,steady⟩
  cases outcome with
  | first table _ => exact ⟨⟨table,steady.heap⟩,rfl⟩
  | second _ missed _ => exact absurd hits missed.not_hits
  | passed _ missed _ => exact absurd hits missed.not_hits
  | helped marked _ _ _ slot => exact absurd marked (by simp [clean.unmarked _ _ slot])
  | blocked _ stuck =>
    rcases stuck.2 with stuck | ⟨-,stuck⟩
    · exact absurd stuck (clean.not_stuck first)
    · exact absurd stuck (clean.not_stuck second)

def Memory.fingerprint (m : Memory) (b i : Nat) : Option Bytes :=
  if getRealPointer (m.hashTable b i) = 0 then none
  else some (m.str (getRealPointer (m.hashTable b i)))

def Memory.bag (cfg : Config) (m : Memory) : Multiset KeyClass :=
  classes cfg.tableSize m.fingerprint

def Memory.Holds (cfg : Config) (m : Memory) (entry : Address) : Prop :=
  ∃ b i, cfg.Slot b i ∧ getRealPointer (m.hashTable b i) = entry

theorem fingerprint_alike (same : Alike m n) : n.fingerprint = m.fingerprint := by
  funext b i
  simp only [Memory.fingerprint,same.table,same.str]

theorem bag_alike (same : Alike m n) : n.bag cfg = m.bag cfg := by
  rw [Memory.bag,fingerprint_alike same]
  rfl

theorem fingerprint_none : m.fingerprint b i = none ↔ getRealPointer (m.hashTable b i) = 0 := by
  simp [Memory.fingerprint]

theorem fingerprint_some {string : Bytes} : m.fingerprint b i = some string ↔
    getRealPointer (m.hashTable b i) ≠ 0 ∧ string = m.str (getRealPointer (m.hashTable b i)) := by
  simp [Memory.fingerprint,eq_comm (b := string)]

theorem alternate_held {string : Bytes} (here : m.fingerprint b i = some string) :
    m.alternate cfg b i = getNextHashIndex cfg.tableSize b string := by
  rw [(fingerprint_some.mp here).2]
  rfl

theorem Memory.Clean.hits (clean : m.Clean cfg) (slot : cfg.Slot b i) {string : Bytes} :
    Hits m string b i ↔ m.fingerprint b i = some string := by
  simp [Hits,fingerprint_some,clean.unmarked b i slot]

/-- The class of a key is in the bag when a search would meet its fingerprint. -/
theorem Memory.Clean.mem_bag (clean : m.Clean cfg) (power : cfg.tableSize = 2 ^ e) (key : Bytes) :
    keyClass cfg.tableSize cfg.md5Fingerprint key ∈ m.bag cfg ↔ ∃ i < numItemsPerEntry,
      Hits m (cfg.md5Fingerprint key) (FindFrame.enter cfg key).hash1 i ∨
        Hits m (cfg.md5Fingerprint key) (FindFrame.enter cfg key).hash2 i := by
  refine (mem_classes power (Nat.mod_lt _ cfg.positive)).trans ?_
  refine exists_congr fun i => and_congr_right fun inside => or_congr ?_ ?_
  · exact (clean.hits ⟨Nat.mod_lt _ cfg.positive,inside⟩).symm
  · exact (clean.hits ⟨getNextHashIndex_lt cfg.positive _ _,inside⟩).symm

theorem Found.returns {f : FindFrame} (found : Found m f flow) :
    ∃ location word, flow = .returned (location,word) ∧
      (location = 2 * numItemsPerEntry ∨ location < 2 * numItemsPerEntry ∧
        Hits m f.fingerprint (f.bucketOf location) (location % numItemsPerEntry) ∧
        word = m.hashTable (f.bucketOf location) (location % numItemsPerEntry)) := by
  cases found with
  | hit inside hits => exact ⟨_,_,rfl,.inr ⟨inside,hits,rfl⟩⟩
  | missed all => exact ⟨_,_,rfl,.inl rfl⟩

theorem Found.mem_bag (found : Found m (.enter cfg key) (.returned (location,word)))
    (clean : m.Clean cfg) (power : cfg.tableSize = 2 ^ e) :
    location < 2 * numItemsPerEntry ↔
      keyClass cfg.tableSize cfg.md5Fingerprint key ∈ m.bag cfg := by
  rw [clean.mem_bag power]
  cases found with
  | hit inside hits =>
    refine iff_of_true inside ⟨_,Nat.mod_lt location (by decide),?_⟩
    unfold FindFrame.bucketOf at hits
    split at hits
    · exact .inl hits
    · exact .inr hits
  | missed all =>
    refine iff_of_false (Nat.lt_irrefl _) ?_
    rintro ⟨i,inside,here | there⟩
    · exact (all i inside).1.not_hits here
    · exact (all i inside).2.not_hits there

@[simp] theorem allocate_table (m : Memory) (address : Address) (str : Bytes) :
    (m.allocate address str).hashTable = m.hashTable := rfl

theorem allocate_str (fresh : m.Fresh address)
    (known : getRealPointer (m.hashTable b i) ≠ 0 → m.heap (getRealPointer (m.hashTable b i)) ≠ none)
    (str : Bytes) : (m.allocate address str).str (getRealPointer (m.hashTable b i)) =
      m.str (getRealPointer (m.hashTable b i)) := by
  have other : getRealPointer (m.hashTable b i) ≠ address := by
    intro here
    rw [here] at known
    exact known fresh.1 fresh.2.2
  simp [Memory.str,Memory.allocate,other]

theorem fingerprint_allocate (fresh : m.Fresh address)
    (known : ∀ b i, getRealPointer (m.hashTable b i) ≠ 0 →
      m.heap (getRealPointer (m.hashTable b i)) ≠ none) (str : Bytes) :
    (m.allocate address str).fingerprint = m.fingerprint := by
  funext b i
  simp only [Memory.fingerprint,allocate_table,allocate_str fresh (known b i)]

/-- Where the words of a table come from after a move. -/
theorem Shifted.origin (shifted : Shifted cfg m n b i)
    (full : getRealPointer (n.hashTable b' i') ≠ 0) :
    (b' = m.alternate cfg b i ∧ i' = i ∧
      getRealPointer (n.hashTable b' i') = getRealPointer (m.hashTable b i)) ∨
    ¬(b' = b ∧ i' = i) ∧ ¬(b' = m.alternate cfg b i ∧ i' = i) ∧
      n.hashTable b' i' = m.hashTable b' i' := by
  by_cases there : b' = m.alternate cfg b i ∧ i' = i
  · obtain ⟨rfl,rfl⟩ := there
    exact .inl ⟨rfl,rfl,shifted.target.1⟩
  · by_cases here : b' = b ∧ i' = i
    · obtain ⟨rfl,rfl⟩ := here
      exact absurd shifted.source.1 full
    · exact .inr ⟨here,there,shifted.others b' i' here there⟩

theorem Shifted.clean (shifted : Shifted cfg m n b i) (clean : m.Clean cfg) : n.Clean cfg := by
  constructor
  · intro b' i' inside
    by_cases here : b' = b ∧ i' = i
    · obtain ⟨rfl,rfl⟩ := here
      exact shifted.source.2
    · by_cases there : b' = m.alternate cfg b i ∧ i' = i
      · obtain ⟨rfl,rfl⟩ := there
        exact shifted.target.2
      · rw [shifted.others b' i' here there]
        exact clean.unmarked b' i' inside
  · intro b₁ i₁ b₂ i₂ inside₁ inside₂ full same
    rcases shifted.origin full with ⟨rfl,rfl,first⟩ | ⟨here,there,first⟩
    · rcases shifted.origin (same ▸ full) with ⟨rfl,rfl,-⟩ | ⟨here',-,second⟩
      · exact ⟨rfl,rfl⟩
      · rw [first,second] at same
        exact absurd (clean.single _ _ _ _ shifted.slot inside₂ shifted.present same) here'
    · rcases shifted.origin (same ▸ full) with ⟨rfl,rfl,second⟩ | ⟨-,-,second⟩
      · rw [first,second] at same
        exact absurd (clean.single _ _ _ _ shifted.slot inside₁ shifted.present same.symm) here
      · rw [first,second] at same
        rw [first] at full
        exact clean.single _ _ _ _ inside₁ inside₂ full same

theorem Shifted.holds (shifted : Shifted cfg m n b i) (present : entry ≠ 0) :
    n.Holds cfg entry ↔ m.Holds cfg entry := by
  constructor
  · rintro ⟨b',i',inside,rfl⟩
    rcases shifted.origin present with ⟨-,-,same⟩ | ⟨-,-,same⟩
    · exact ⟨b,i,shifted.slot,same.symm⟩
    · exact ⟨b',i',inside,by rw [same]⟩
  · rintro ⟨b',i',inside,rfl⟩
    by_cases here : b' = b ∧ i' = i
    · obtain ⟨rfl,rfl⟩ := here
      exact ⟨_,_,⟨alternate_lt cfg m b' i',inside.2⟩,shifted.target.1⟩
    · by_cases there : b' = m.alternate cfg b i ∧ i' = i
      · obtain ⟨rfl,rfl⟩ := there
        exact absurd shifted.vacant present
      · exact ⟨b',i',inside,by rw [shifted.others b' i' here there]⟩

theorem Shifted.bag (shifted : Shifted cfg m n b i) (power : cfg.tableSize = 2 ^ e) :
    n.bag cfg = m.bag cfg := by
  have str : n.str = m.str := by
    funext entry
    simp only [Memory.str,shifted.heap]
  refine classes_move power
    shifted.slot.1 shifted.slot.2 shifted.apart ?_ ?_ ?_ ?_ ?_
  · intro b' i' here there
    simp only [Memory.fingerprint,shifted.others b' i' here there,str]
  · exact fingerprint_some.mpr ⟨shifted.present,rfl⟩
  · exact fingerprint_none.mpr shifted.vacant
  · exact fingerprint_none.mpr shifted.source.1
  · refine fingerprint_some.mpr ?_
    have target := shifted.target.1
    rw [Memory.alternate] at target
    rw [target,str]
    exact ⟨shifted.present,rfl⟩

section

variable {word : TablePointer}

theorem write_here (m : Memory) (b i : Nat) (word : TablePointer) :
    (m.write b i word).hashTable b i = word := by simp [Memory.write_table]

theorem write_there (m : Memory) (word : TablePointer) (other : ¬(b' = b ∧ i' = i)) :
    (m.write b i word).hashTable b' i' = m.hashTable b' i' := by
  rw [Memory.write_table,if_neg other]

theorem fingerprint_write (m : Memory) (word : TablePointer)
    (other : ¬(b' = b ∧ i' = i)) :
    (m.write b i word).fingerprint b' i' = m.fingerprint b' i' := by
  simp only [Memory.fingerprint,write_there m word other]
  rfl

theorem unmarked_write (clean : m.Clean cfg) (unmarked : getMarked word = false) (b i : Nat) :
    (m.write b i word).Unmarked cfg := by
  intro b' i' inside
  by_cases here : b' = b ∧ i' = i
  · rw [here.1,here.2,write_here,unmarked]
  · rw [write_there m word here]
    exact clean.unmarked b' i' inside

theorem put_clean (clean : m.Clean cfg) (unmarked : getMarked word = false)
    (absent : ¬m.Holds cfg (getRealPointer word)) : (m.write b i word).Clean cfg := by
  refine ⟨unmarked_write clean unmarked b i,?_⟩
  intro b₁ i₁ b₂ i₂ inside₁ inside₂ full same
  by_cases first : b₁ = b ∧ i₁ = i
  · by_cases second : b₂ = b ∧ i₂ = i
    · exact ⟨second.1.trans first.1.symm,second.2.trans first.2.symm⟩
    · rw [first.1,first.2,write_here,write_there m word second] at same
      exact absurd ⟨_,_,inside₂,same⟩ absent
  · by_cases second : b₂ = b ∧ i₂ = i
    · rw [second.1,second.2,write_here,write_there m word first] at same
      exact absurd ⟨_,_,inside₁,same.symm⟩ absent
    · rw [write_there m word first] at full same
      rw [write_there m word second] at same
      exact clean.single _ _ _ _ inside₁ inside₂ full same

theorem put_holds (slot : cfg.Slot b i) (empty : getRealPointer (m.hashTable b i) = 0)
    (present : entry ≠ 0) :
    (m.write b i word).Holds cfg entry ↔ entry = getRealPointer word ∨ m.Holds cfg entry := by
  constructor
  · rintro ⟨b',i',inside,rfl⟩
    by_cases here : b' = b ∧ i' = i
    · rw [here.1,here.2,write_here]
      exact .inl rfl
    · rw [write_there m word here]
      exact .inr ⟨b',i',inside,rfl⟩
  · rintro (rfl | ⟨b',i',inside,rfl⟩)
    · exact ⟨b,i,slot,by rw [write_here]⟩
    · refine ⟨b',i',inside,?_⟩
      rw [write_there m word]
      rintro ⟨rfl,rfl⟩
      exact present empty

theorem put_bag (slot : cfg.Slot b i) (empty : getRealPointer (m.hashTable b i) = 0)
    (present : getRealPointer word ≠ 0) :
    (m.write b i word).bag cfg =
      classAt cfg.tableSize b (m.str (getRealPointer word)) ::ₘ m.bag cfg := by
  refine classes_put slot.1 slot.2 ?_ (fingerprint_none.mpr empty) ?_
  · exact fun b' i' other => fingerprint_write m word other
  · refine fingerprint_some.mpr ?_
    rw [write_here]
    exact ⟨present,rfl⟩

theorem take_clean (clean : m.Clean cfg) (unmarked : getMarked word = false)
    (null : getRealPointer word = 0) : (m.write b i word).Clean cfg := by
  refine ⟨unmarked_write clean unmarked b i,?_⟩
  intro b₁ i₁ b₂ i₂ inside₁ inside₂ full same
  have first : ¬(b₁ = b ∧ i₁ = i) := by
    rintro ⟨rfl,rfl⟩
    rw [write_here] at full
    exact full null
  have second : ¬(b₂ = b ∧ i₂ = i) := by
    rintro ⟨rfl,rfl⟩
    rw [write_here] at same
    exact full (same.symm.trans null)
  rw [write_there m word first] at full same
  rw [write_there m word second] at same
  exact clean.single _ _ _ _ inside₁ inside₂ full same

theorem take_holds (clean : m.Clean cfg) (slot : cfg.Slot b i) (null : getRealPointer word = 0)
    (present : entry ≠ 0) :
    (m.write b i word).Holds cfg entry ↔
      entry ≠ getRealPointer (m.hashTable b i) ∧ m.Holds cfg entry := by
  constructor
  · rintro ⟨b',i',inside,rfl⟩
    have other : ¬(b' = b ∧ i' = i) := by
      rintro ⟨rfl,rfl⟩
      rw [write_here] at present
      exact present null
    rw [write_there m word other] at present ⊢
    refine ⟨fun same => ?_,b',i',inside,rfl⟩
    obtain ⟨rfl,rfl⟩ := clean.single b' i' b i inside slot present same.symm
    exact other ⟨rfl,rfl⟩
  · rintro ⟨away,b',i',inside,rfl⟩
    refine ⟨b',i',inside,?_⟩
    rw [write_there m word]
    rintro ⟨rfl,rfl⟩
    exact away rfl

theorem take_bag (slot : cfg.Slot b i) (full : getRealPointer (m.hashTable b i) ≠ 0)
    (null : getRealPointer word = 0) :
    m.bag cfg = classAt cfg.tableSize b (m.str (getRealPointer (m.hashTable b i))) ::ₘ
      (m.write b i word).bag cfg := by
  refine classes_take slot.1 slot.2 ?_ (fingerprint_some.mpr ⟨full,rfl⟩) ?_
  · exact fun b' i' other => fingerprint_write m word other
  · refine fingerprint_none.mpr ?_
    rw [write_here,null]

end

end CuckooFilter.LockFree
