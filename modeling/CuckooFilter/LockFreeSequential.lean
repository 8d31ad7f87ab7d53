import CuckooFilter.LockFreeSingle
import CuckooFilter.Sequential

/-! The filter on one thread beside the sequential one. They keep their entries in different
slots and kick different ones out, but to the same calls they give the same answers. -/
namespace CuckooFilter.LockFree

variable {cfg : Config} {tid : Nat} {s : System} {table : SequentialFilter}

theorem unrefused_relabel {events : List (Bag.Op Bytes × Bool)} (f : Bytes → KeyClass)
    (stored : ∀ key, (.insert key,false) ∉ events) (c : KeyClass) :
    (.insert c,false) ∉ Bag.relabel f events := by
  intro there
  obtain ⟨⟨op,answer⟩,member,same⟩ := List.mem_map.mp there
  cases op <;> cases same
  exact stored _ member

/-- Histories with the same calls, and with the same answers as histories of classes. -/
theorem relabel_cancel {events events' : List (Bag.Op Bytes × Bool)} {f : Bytes → KeyClass}
    (calls : events.map Prod.fst = events'.map Prod.fst)
    (same : Bag.relabel f events = Bag.relabel f events') : events = events' := by
  have answers : events.map Prod.snd = events'.map Prod.snd := by
    have told := congrArg (List.map Prod.snd) same
    simpa [Bag.relabel,Function.comp_def] using told
  have pairs (l : List (Bag.Op Bytes × Bool)) : l = (l.map Prod.fst).zip (l.map Prod.snd) :=
    List.zip_of_prod rfl rfl
  rw [pairs events,calls,answers]
  exact (pairs events').symm

/-- As long as neither refuses an insertion, a filter that one thread uses answers every call
as the sequential filter does, and their tables are the same bag of classes. -/
theorem single_agrees (power : cfg.tableSize = 2 ^ e)
    (nonempty : ∀ key, cfg.md5Fingerprint key ≠ [])
    (run : Relation.ReflTransGen (StepBy cfg tid) System.initial s) (idle : s.control tid = .idle)
    (runs : SequentialFilter.Runs cfg.md5Fingerprint cfg.tableSize events table)
    (calls : events.map Prod.fst = s.memory.history.map Prod.fst)
    (stored : ∀ key, (.insert key,false) ∉ events)
    (stored' : ∀ key, (.insert key,false) ∉ s.memory.history) :
    events = s.memory.history ∧ table.bag = s.memory.bag cfg := by
  have replay : Bag.Replay (Bag.relabel cfg.keyClass events) table.bag :=
    SequentialFilter.runs_replay power nonempty runs stored
  have balanced : Balanced cfg s.memory :=
    (idle_upheld (balanced_upheld power tid) (balanced_initial cfg) run idle).1
  have same : (Bag.relabel cfg.keyClass events).map Prod.fst =
      (Bag.relabel cfg.keyClass s.memory.history).map Prod.fst := by
    have relabelled := congrArg (List.map (Bag.Op.map cfg.keyClass)) calls
    simpa [Bag.relabel,Function.comp_def] using relabelled
  obtain ⟨answers,bags⟩ := replay.agree balanced.replay same
    (unrefused_relabel cfg.keyClass stored) (unrefused_relabel cfg.keyClass stored')
  exact ⟨relabel_cancel calls answers,bags⟩

theorem moved_agrees :
    (SequentialFilter.perform sampleMd5 2 SequentialFilter.kickedCalls).1 =
        (endState sampleConfig (movingSchedule ++ lookups)).memory.history ∧
      (SequentialFilter.perform sampleMd5 2 SequentialFilter.kickedCalls).2.bag =
        (endState sampleConfig (movingSchedule ++ lookups)).memory.bag sampleConfig := by
  have run : Relation.ReflTransGen (StepBy sampleConfig 0) System.initial
      (endState sampleConfig (movingSchedule ++ lookups)) := endState_single 0 _ (by decide +kernel)
  have told : (SequentialFilter.perform sampleMd5 2 SequentialFilter.kickedCalls).1 =
      [(.remove keyF,true),(.find keyA,true),(.insert keyF,true),(.insert keyF,true),
        (.insert keyF,true),(.insert keyF,true),(.insert keyA,true)] := by
    decide +kernel
  have answered : (endState sampleConfig (movingSchedule ++ lookups)).memory.history =
      [(.remove keyF,true),(.find keyA,true),(.insert keyF,true),(.insert keyF,true),
        (.insert keyF,true),(.insert keyF,true),(.insert keyA,true)] := by
    decide +kernel
  refine single_agrees (e := 1) rfl sampleMd5_nonempty run (by decide +kernel)
    (SequentialFilter.perform_runs sampleMd5 2 SequentialFilter.kickedCalls) (by rw [told,answered])
    (fun key => ?_) fun key => ?_
  · simp [told]
  · simp [answered]

end CuckooFilter.LockFree
