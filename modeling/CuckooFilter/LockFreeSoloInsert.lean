import CuckooFilter.LockFreeSoloRun
import CuckooFilter.LockFreeClean

/-! An insertion alone on a clean table. Every round stores the entry, moves one entry out
of the way or gives up; what each of the three keeps is left to the caller. -/
namespace CuckooFilter.LockFree

variable {cfg : Config} {tid : Nat} {s t : System} {m n : Memory} {good goal : System → Prop}
variable {f : InsertFrame} {held : Memory → Prop}

def InsertFrame.Crowded (f : InsertFrame) (m : Memory) : Prop :=
  ∀ side, ∀ i < numItemsPerEntry, getRealPointer (m.hashTable (f.bucket side) i) ≠ 0

def InsertFrame.Closed (f : InsertFrame) (cfg : Config) (m : Memory) (indices : Nat → Prop) : Prop :=
  ∀ i < numItemsPerEntry, indices i → ∀ d < numMaxKicks, ¬Leads cfg m f.hash1 i d

/-- What has to be kept for an insertion alone to come to its goal. -/
structure Inserting (cfg : Config) (tid : Nat) (s : System) (f : InsertFrame)
    (good goal : System → Prop) (held : Memory → Prop) : Prop where
  setting : Setting cfg tid good goal
  first : f.hash1 < cfg.tableSize
  unmarked : ∀ m, held m → m.Unmarked cfg
  steady : ∀ m n, held m → Steady m n → n.hashTable = m.hashTable → held n
  shifted : ∀ m n d i, held m → Steady m n → i < numItemsPerEntry → d + 1 < numMaxKicks →
    Leads cfg m f.hash1 i (d + 1) → Shifted cfg m n (m.hop cfg f.hash1 i d) i →
    n.slack cfg < m.slack cfg → held n
  stored : ∀ m second i word, held m → good (s.put tid (m,.insert f.home)) → i < numItemsPerEntry →
    getRealPointer (m.hashTable (f.bucket second) i) = 0 →
    createPointer (getCounter (m.hashTable (f.bucket second) i)) f.newEntry false = some word →
    goal (s.put tid (f.placed tid m second i word,.idle))
  refused : ∀ m, held m → f.Crowded m → f.Closed cfg m (fun _ => True) →
    goal (s.put tid (m.respond tid (.insert f.key) (.truth false),.idle))

/-- The kick order over a crowded table, one slot after another; `rest` are those to come. -/
theorem Inserting.kicks (inserting : Inserting cfg tid s f good goal held)
    (back : ∀ n, n.slack cfg < m.slack cfg → held n → good (s.put tid (n,.insert f.home)) →
      Alone cfg tid goal (s.put tid (n,.insert f.home)))
    (crowded : f.Crowded m) (rest : List Nat) (tried : f.Closed cfg m (· ∉ rest))
    (inside : ∀ i ∈ rest, i < numItemsPerEntry) (holds : held m)
    (here : good (s.put tid (f.kicked tid m rest false))) :
    Alone cfg tid goal (s.put tid (f.kicked tid m rest false)) := by
  induction rest generalizing m with
  | nil =>
    refine .reached (inserting.refused m holds crowded ?_)
    exact fun i inside _ => tried i inside (List.not_mem_nil)
  | cons kickSlot rest ih =>
    have slot : cfg.Slot f.hash1 kickSlot := ⟨inserting.first,inside _ List.mem_cons_self⟩
    refine Alone.call (kickSite cfg tid f rest) inserting.setting here
      ((relocate_unmarked (inserting.unmarked m holds) slot).steady (relocate_steady cfg tid)) ?_
    rintro n flow ⟨outcome,steady⟩ reached
    cases outcome with
    | refused alike far =>
      refine ih ?_ ?_ ?_ ?_ (inserting.steady m n holds steady alike.table) reached
      · intro later less
        exact back later (less.trans_eq (slack_table alike.table))
      · intro side i
        rw [alike.table]
        exact crowded side i
      · intro i slot absent d early
        rw [leads_alike alike]
        by_cases same : i = kickSlot
        · exact same ▸ far d early
        · exact tried i slot (by simp [same,absent]) d early
      · exact fun i member => inside i (List.mem_cons_of_mem _ member)
    | vacant alike empty => exact absurd empty (crowded false kickSlot slot.2)
    | shifted early leads shifted less =>
      exact back n less (inserting.shifted m n _ _ holds steady slot.2 early leads shifted less) reached

/-- From the first probe of a round. Every further round has raised a counter. -/
theorem Inserting.alone (inserting : Inserting cfg tid s f good goal held) (holds : held m)
    (here : good (s.put tid (m,.insert f.home))) :
    Alone cfg tid goal (s.put tid (m,.insert f.home)) := by
  induction size : m.slack cfg using Nat.strongRecOn generalizing m with
  | ind left ih =>
    refine probes_alone inserting.setting ?_ (by simp) ?_ (by decide) here
    · intro second i inside empty word created _
      exact .reached (inserting.stored m second i word holds here inside empty created)
    · intro _ full reached
      refine shuffle_alone inserting.setting reached fun kickSlot rest permuted => ?_
      refine inserting.kicks ?_ ?_ (kickSlot :: rest) ?_ ?_ holds
      · exact fun n less holds' reached => ih _ (size ▸ less) holds' reached rfl
      · exact fun side i inside => full i side (from_start side inside)
      · exact fun i inside absent => absurd (permuted.symm.subset (List.mem_range.mpr inside)) absent
      · exact fun i member => List.mem_range.mp (permuted.subset member)

end CuckooFilter.LockFree
