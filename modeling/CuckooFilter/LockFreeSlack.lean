import CuckooFilter.LockFreeSolo
import Mathlib.Algebra.Order.BigOperators.Group.Finset

/-! The measure of the retry loops. Counters are bounded, every relocation that
changes an entry's slot raises one, and nothing else a call alone does to a table
lowers one: what is left to raise goes down with every retry that helped. -/
namespace CuckooFilter.LockFree

variable {cfg : Config} {m next : Memory}

/-- A mark never stands on an empty slot. -/
def Memory.Tidy (cfg : Config) (m : Memory) : Prop :=
  ∀ b i, cfg.Slot b i → getMarked (m.hashTable b i) = true → getRealPointer (m.hashTable b i) ≠ 0

theorem Memory.Tidy.table (tidy : m.Tidy cfg) (same : next.hashTable = m.hashTable) :
    next.Tidy cfg := by
  intro b i
  rw [same]
  exact tidy b i

theorem Memory.Tidy.write (tidy : m.Tidy cfg) (full : getMarked word = true → getRealPointer word ≠ 0)
    (b i : Nat) : (m.write b i word).Tidy cfg := by
  intro b' i' slot marked
  rw [Memory.write_table] at marked ⊢
  split at marked
  · rw [if_pos (by assumption)]
    exact full marked
  · rw [if_neg (by assumption)]
    exact tidy b' i' slot marked

theorem Memory.Tidy.relocating (tidy : m.Tidy cfg) (slot : cfg.Slot b i)
    (marked : getMarked (m.hashTable b i) = true) : Relocating (m.hashTable b i) :=
  ⟨marked,tidy b i slot marked⟩

/-- What the counters can still be raised by. -/
def Memory.slack (cfg : Config) (m : Memory) : Nat :=
  ∑ b ∈ Finset.range cfg.tableSize, ∑ i ∈ Finset.range numItemsPerEntry,
    (65535 - getCounter (m.hashTable b i))

theorem slack_table (same : next.hashTable = m.hashTable) : next.slack cfg = m.slack cfg := by
  simp only [Memory.slack,same]

theorem slack_le (risen : ∀ b i, getCounter (m.hashTable b i) ≤ getCounter (next.hashTable b i)) :
    next.slack cfg ≤ m.slack cfg :=
  Finset.sum_le_sum fun b _ => Finset.sum_le_sum fun i _ => Nat.sub_le_sub_left (risen b i) _

theorem slack_lt (risen : ∀ b i, getCounter (m.hashTable b i) ≤ getCounter (next.hashTable b i))
    (slot : cfg.Slot b i) (raised : getCounter (m.hashTable b i) < getCounter (next.hashTable b i)) :
    next.slack cfg < m.slack cfg := by
  have bound := getCounter_le (next.hashTable b i)
  refine Finset.sum_lt_sum (fun b _ => Finset.sum_le_sum fun i _ =>
    Nat.sub_le_sub_left (risen b i) _) ⟨b,Finset.mem_range.mpr slot.1,?_⟩
  refine Finset.sum_lt_sum (fun i _ => Nat.sub_le_sub_left (risen b i) _)
    ⟨i,Finset.mem_range.mpr slot.2,?_⟩
  omega

theorem slack_write_le (kept : getCounter (m.hashTable b i) ≤ getCounter word) :
    (m.write b i word).slack cfg ≤ m.slack cfg := by
  refine slack_le fun b' i' => ?_
  rw [Memory.write_table]
  split
  · rename_i here
    rw [here.1,here.2]
    exact kept
  · exact le_rfl

theorem slack_write_lt (slot : cfg.Slot b i) (raised : getCounter (m.hashTable b i) < getCounter word) :
    (m.write b i word).slack cfg < m.slack cfg := by
  refine slack_lt (fun b' i' => ?_) slot (by simpa [Memory.write_table] using raised)
  rw [Memory.write_table]
  split
  · rename_i here
    rw [here.1,here.2]
    exact raised.le
  · exact le_rfl

/-- A marked source whose destination is occupied by another word: helping does nothing. -/
def Stuck (cfg : Config) (m : Memory) (b i : Nat) : Prop :=
  Relocating (m.hashTable b i) ∧ getRealPointer (m.hashTable (m.alternate cfg b i) i) ≠ 0 ∧
    m.hashTable (m.alternate cfg b i) i ≠ m.hashTable b i

theorem Stuck.alike (stuck : Stuck cfg m b i) (same : Alike m next) : Stuck cfg next b i := by
  simpa only [Stuck,Memory.alternate,same.table,same.str] using stuck

theorem alternate_lt (cfg : Config) (m : Memory) (b i : Nat) : m.alternate cfg b i < cfg.tableSize :=
  getNextHashIndex_lt cfg.positive _ _

theorem Settled.progress (outcome : Settled cfg m b i next) (slot : cfg.Slot b i)
    (moving : Relocating (m.hashTable b i)) :
    next.slack cfg < m.slack cfg ∧ ¬Stuck cfg m b i ∨
      Stuck cfg m b i ∧ next.hashTable = m.hashTable := by
  have own : cfg.Slot (m.alternate cfg b i) i := ⟨alternate_lt cfg m b i,slot.2⟩
  cases outcome with
  | @moved word empty vacant created emptied table =>
    refine .inl ⟨?_,fun stuck => stuck.2.1 vacant⟩
    have away : b ≠ m.alternate cfg b i := by
      intro same
      rw [← same] at vacant
      exact moving.2 vacant
    rw [slack_table table]
    refine lt_of_le_of_lt (slack_write_le ?_) (slack_write_lt own ?_)
    · rw [createPointer_counter emptied null_fits,Memory.write_table,if_neg (by simp [away])]
      omega
    · rw [createPointer_counter created (getRealPointer_fits _)]
      exact (raisedCounter_gt _ _).2
  | erased same emptied table =>
    refine .inl ⟨?_,fun stuck => stuck.2.2 same⟩
    rw [slack_table table]
    refine slack_write_lt own ?_
    rw [createPointer_counter emptied null_fits,same]
    omega
  | stuck full other table => exact .inr ⟨⟨moving,full,other⟩,table⟩

theorem Settled.tidy (outcome : Settled cfg m b i next) (tidy : m.Tidy cfg) : next.Tidy cfg := by
  cases outcome with
  | moved vacant created emptied table =>
    refine ((tidy.write ?_ _ _).write ?_ _ _).table table
    · rw [createPointer_marked created (getRealPointer_fits _)]
      simp
    · rw [createPointer_marked emptied null_fits]
      simp
  | erased same emptied table =>
    refine (tidy.write ?_ _ _).table table
    rw [createPointer_marked emptied null_fits]
    simp
  | stuck full other table => exact tidy.table table

theorem HelpEffect.tidy (effect : HelpEffect cfg m b i initiator next) (tidy : m.Tidy cfg) :
    next.Tidy cfg := by
  cases effect with
  | nothing unmarked idle table => exact tidy.table table
  | settled moving outcome => exact outcome.tidy tidy
  | initiated began unmarked present outcome =>
    exact outcome.tidy (tidy.write (by simpa using present) _ _)

theorem HelpEffect.slack_le (effect : HelpEffect cfg m b i initiator next) (slot : cfg.Slot b i) :
    next.slack cfg ≤ m.slack cfg := by
  cases effect with
  | nothing unmarked idle table => exact (slack_table table).le
  | settled moving outcome =>
    rcases outcome.progress slot moving with ⟨less,-⟩ | ⟨-,table⟩
    · exact less.le
    · exact (slack_table table).le
  | initiated began unmarked present outcome =>
    have marking : (m.write b i (getNewMark (m.hashTable b i) true)).slack cfg ≤ m.slack cfg :=
      slack_write_le (by simp)
    refine le_trans ?_ marking
    rcases outcome.progress slot ⟨by simp [Memory.write_table],
      by simpa [Memory.write_table] using present⟩ with ⟨less,-⟩ | ⟨-,table⟩
    · exact less.le
    · exact (slack_table table).le

end CuckooFilter.LockFree
