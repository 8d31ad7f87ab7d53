import Mathlib.Data.List.Basic

/-! Filtering a list in place. One position reads every item in turn; another, never ahead
of it, writes the items to keep; the others are dropped. -/
namespace Compaction

variable {α : Type*} {keep : α → Bool} {items : List α} {n : Nat}

structure State (α : Type*) where
  items : List α
  write : Nat
  dropped : List α

/-- The round that reads one position. -/
def step (keep : α → Bool) (s : State α) (read : Nat) : State α :=
  match s.items[read]? with
  | none => s
  | some item =>
    if keep item then { s with items := s.items.set s.write item, write := s.write + 1 }
    else { s with dropped := s.dropped ++ [item] }

/-- The state after the first `n` rounds. -/
def loop (keep : α → Bool) (items : List α) : Nat → State α
  | 0 => ⟨items,0,[]⟩
  | n + 1 => step keep (loop keep items n) n

/-- The items read so far are sorted into those written and those dropped; the others stand
where they were. -/
structure Compacted (keep : α → Bool) (items : List α) (n : Nat) (s : State α) : Prop where
  length : s.items.length = items.length
  count : s.write = ((items.take n).filter keep).length
  written : s.items.take s.write = (items.take n).filter keep
  rest : s.items.drop n = items.drop n
  dropped : s.dropped = (items.take n).filter fun item => !keep item

theorem Compacted.write_le {s : State α} (compacted : Compacted keep items n s) : s.write ≤ n := by
  rw [compacted.count]
  calc
    ((items.take n).filter keep).length ≤ (items.take n).length := List.length_filter_le _ _
    _ ≤ n := List.length_take_le n items

theorem compacted_start (keep : α → Bool) (items : List α) :
    Compacted keep items 0 ⟨items,0,[]⟩ := by
  refine ⟨rfl,?_,?_,rfl,?_⟩
  · simp
  · simp
  · simp

theorem filter_take_succ (p : α → Bool) (inside : n < items.length) :
    (items.take (n + 1)).filter p = (items.take n).filter p ++ [items[n]].filter p := by
  rw [List.take_succ_eq_append_getElem inside,List.filter_append]

theorem compacted_step {s : State α} (compacted : Compacted keep items n s)
    (inside : n < items.length) : Compacted keep items (n + 1) (step keep s n) := by
  have behind := compacted.write_le
  have bound : n < s.items.length := by rw [compacted.length]; exact inside
  have read : s.items[n]? = some items[n] := by
    have unread := congrArg (fun tail => tail[0]?) compacted.rest
    simpa [List.getElem?_eq_getElem inside] using unread
  have next : s.items.drop (n + 1) = items.drop (n + 1) := by
    rw [← List.tail_drop,compacted.rest,List.tail_drop]
  rw [step,read]
  by_cases kept : keep items[n] = true
  · simp only [kept,if_true]
    have grown : (items.take (n + 1)).filter keep = (items.take n).filter keep ++ [items[n]] := by
      rw [filter_take_succ keep inside]
      simp [kept]
    refine ⟨?_,?_,?_,?_,?_⟩
    · rw [List.length_set,compacted.length]
    · rw [grown,List.length_append,← compacted.count]
      rfl
    · have short : s.write < (s.items.set s.write items[n]).length := by
        rw [List.length_set]
        omega
      rw [grown,← compacted.written,List.take_succ_eq_append_getElem short,
        List.take_set_of_le (Nat.le_refl _),List.getElem_set_self]
    · rw [List.drop_set_of_lt (by omega),next]
    · rw [compacted.dropped,filter_take_succ _ inside]
      simp [kept]
  · have lost : keep items[n] = false := Bool.eq_false_iff.mpr kept
    simp only [lost,Bool.false_eq_true,if_false]
    have same : (items.take (n + 1)).filter keep = (items.take n).filter keep := by
      rw [filter_take_succ keep inside]
      simp [lost]
    refine ⟨compacted.length,?_,?_,next,?_⟩
    · rw [same]
      exact compacted.count
    · rw [same]
      exact compacted.written
    · rw [compacted.dropped,filter_take_succ _ inside]
      simp [lost]

theorem loop_compacted (keep : α → Bool) (items : List α) (whole : n ≤ items.length) :
    Compacted keep items n (loop keep items n) := by
  induction n with
  | zero => exact compacted_start keep items
  | succ n ih => exact compacted_step (ih (by omega)) (by omega)

end Compaction
