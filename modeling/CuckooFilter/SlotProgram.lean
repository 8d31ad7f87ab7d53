import CuckooFilter.LockingAtomic
import CuckooFilter.Sequential

/-! Programs on the slots of a table. A loop over a bucket reads its slots one after the
other; the two tests of a slot in `remove` are one read. -/
namespace CuckooFilter

abbrev Slot := Nat × Nat

abbrev Code (Mutex : Type) := Locking.Program Mutex Slot Bytes Bool

/-- The loop over a bucket: the first slot that passes the test. -/
def probe {Mutex : Type} (test : Bytes → Bool) (bucket : Nat) (hit : Nat → Code Mutex)
    (miss : Code Mutex) : List Nat → Code Mutex
  | [] => miss
  | i :: rest => .read (bucket,i) fun str => if test str then hit i else probe test bucket hit miss rest

def scanCode {Mutex : Type} (test : Bytes → Bool) (bucket : Nat) (hit : Nat → Code Mutex)
    (miss : Code Mutex) : Code Mutex :=
  probe test bucket hit miss (List.range numItemsPerEntry)

/-- The mutex is given back before a `return`. -/
def leave {Mutex : Type} (mutex : Mutex) (answer : Bool) : Code Mutex :=
  .release mutex (.done answer)

section

variable {Mutex : Type} {guard : Slot → Mutex} {bare : Code Mutex → Prop} {test : Bytes → Bool}
variable {hit : Nat → Code Mutex} {miss : Code Mutex} {cells after : Slot → Bytes} {bucket : Nat}

theorem scan_disciplined (own : ∀ i, guard (bucket,i) = mutex)
    (found : ∀ i, Locking.Disciplined guard bare (some (mutex,mode)) (hit i))
    (missed : Locking.Disciplined guard bare (some (mutex,mode)) miss) :
    Locking.Disciplined guard bare (some (mutex,mode)) (scanCode test bucket hit miss) := by
  unfold scanCode
  induction List.range numItemsPerEntry with
  | nil => exact missed
  | cons i rest ih =>
    refine ⟨.inr ⟨mode,by rw [own]⟩,fun str => ?_⟩
    dsimp only
    split
    · exact found i
    · exact ih

theorem scan_ends (found : ∀ i, (hit i).Ends) (missed : miss.Ends) :
    (scanCode test bucket hit miss).Ends := by
  unfold scanCode
  induction List.range numItemsPerEntry with
  | nil => exact missed
  | cons i rest ih =>
    intro str
    dsimp only
    split
    · exact found i
    · exact ih

/-- The slots of a table. -/
def SequentialFilter.ofCells (tableSize : Nat) (cells : Slot → Bytes) : SequentialFilter :=
  ⟨tableSize,fun b i => cells (b,i)⟩

theorem ofCells_tableSize (tableSize : Nat) (cells : Slot → Bytes) :
    (SequentialFilter.ofCells tableSize cells).tableSize = tableSize := rfl

theorem ofCells_update (tableSize : Nat) (cells : Slot → Bytes) (b i : Nat) (str : Bytes) :
    SequentialFilter.ofCells tableSize (Function.update cells (b,i) str) =
      (SequentialFilter.ofCells tableSize cells).write b i str := by
  simp only [SequentialFilter.ofCells,SequentialFilter.write,Function.update_apply,Prod.mk.injEq]

theorem inside_probe (slots : List Nat)
    (inside : Locking.Inside (probe test bucket hit miss slots) cells after (.release mutex rest)) :
    match slots.find? fun i => test (cells (bucket,i)) with
    | some i => Locking.Inside (hit i) cells after (.release mutex rest)
    | none => Locking.Inside miss cells after (.release mutex rest) := by
  induction slots with
  | nil => exact inside
  | cons i slots ih =>
    have read := inside.of_read
    cases passes : test (cells (bucket,i)) with
    | true =>
      rw [passes,if_pos rfl] at read
      simpa only [List.find?_cons,passes] using read
    | false =>
      rw [passes,if_neg Bool.false_ne_true] at read
      simpa only [List.find?_cons,passes] using ih read

theorem inside_scan (tableSize : Nat)
    (inside : Locking.Inside (scanCode test bucket hit miss) cells after (.release mutex rest)) :
    match (SequentialFilter.ofCells tableSize cells).scan test bucket with
    | some i => Locking.Inside (hit i) cells after (.release mutex rest)
    | none => Locking.Inside miss cells after (.release mutex rest) :=
  inside_probe _ inside

theorem inside_leave (tableSize : Nat)
    (inside : Locking.Inside (leave mutex answer) cells after (.release other rest)) :
    rest = .done answer ∧
      SequentialFilter.ofCells tableSize after = SequentialFilter.ofCells tableSize cells := by
  obtain ⟨-,rfl,rfl⟩ := inside.of_release
  exact ⟨rfl,rfl⟩

theorem inside_store (tableSize : Nat)
    (inside : Locking.Inside (.write (b,i) str (leave mutex answer)) cells after
      (.release other rest)) :
    rest = .done answer ∧ SequentialFilter.ofCells tableSize after =
      (SequentialFilter.ofCells tableSize cells).write b i str := by
  obtain ⟨ended,kept⟩ := inside_leave tableSize inside.of_write
  exact ⟨ended,kept.trans (ofCells_update tableSize cells b i str)⟩

end

end CuckooFilter
