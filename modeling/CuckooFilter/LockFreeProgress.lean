import CuckooFilter.LockFreeAbort
import CuckooFilter.LockFreeRemoval
import CuckooFilter.LockFreeSoloRun

/-! Obstruction freedom, as far as it goes. From every reachable state a thread that
moves alone comes to the end of its operation or to a state it is obstructed in: the
process has aborted, memory is exhausted, or a search or a relocation stands before
something no step of its own changes. -/
namespace CuckooFilter.LockFree

variable {cfg : Config} {tid : Nat} {s t : System} {m n : Memory}

/-- The call a thread is in never returns if no other thread moves. -/
def Control.Blocked (cfg : Config) (m : Memory) : Control → Prop
  | .idle => False
  | .insert frame => (frame.pc = .allocate ∧ ∀ address, ¬m.Fresh address) ∨
      ∃ g, frame.relocate? = some g ∧ g.Blocked cfg m
  | .find _ frame => frame.Blocked cfg m
  | .remove frame => ∃ search, frame.find? = some search ∧ search.Blocked cfg m

def Obstructed (cfg : Config) (tid : Nat) (s : System) : Prop :=
  s.control tid ≠ .idle ∧ (s.memory.aborted = true ∨ (s.control tid).Blocked cfg s.memory)

/-- The operation is over, or obstructed. -/
def Settles (cfg : Config) (tid : Nat) (s : System) : Prop :=
  s.control tid = .idle ∨ Obstructed cfg tid s

theorem settles_aborting (cfg : Config) (tid : Nat) : Aborting (Settles cfg tid) := by
  intro t aborted
  by_cases idle : t.control tid = .idle
  · exact .inl idle
  · exact .inr ⟨idle,.inl aborted⟩

theorem settles_setting (cfg : Config) (tid : Nat) :
    Setting cfg tid (Reachable cfg) (Settles cfg tid) :=
  (settles_aborting cfg tid).reachable

theorem settles_idle (m : Memory) : Settles cfg tid (s.put tid (m,.idle)) :=
  .inl (put_control s tid _)

theorem settles_blocked {c : Control} (blocked : c.Blocked cfg m) :
    Settles cfg tid (s.put tid (m,c)) := by
  refine .inr ⟨?_,.inr (by rwa [put_control])⟩
  rw [put_control]
  rintro rfl
  exact blocked

theorem reachable_tidy (reachable : Reachable cfg s) : s.memory.Tidy cfg :=
  fun b i _ => (reachable_formed reachable).marked b i

theorem find_settles (reachable : Reachable cfg s) (site : s.control tid = .find key f) :
    Alone cfg tid (Settles cfg tid) s := by
  have inside : f.Inside cfg := by
    have := (reachable_inRange reachable).threads tid
    rwa [site] at this
  have formed (frame : HelpFrame) (call : f.help? = some frame) : frame.Formed cfg s.memory :=
    (reachable_formed reachable).help tid frame (by rw [site]; exact call)
  have tidy := reachable_tidy reachable
  have start : s = s.put tid ((findSite cfg tid key).land s.memory (.running f)) := by
    conv_lhs => rw [← put_self s tid]
    rw [site]
    rfl
  rw [start] at reachable ⊢
  have setting := settles_setting cfg tid
  refine Alone.call (findSite cfg tid key) setting reachable
    (find_begins tidy inside formed) ?_
  rintro n flow (⟨result,rfl⟩ | turns) reached
  · exact .reached (settles_idle _)
  · have tidy : n.Tidy cfg := by
      obtain ⟨i,-,rfl,-⟩ := turns
      exact reachable_tidy reached
    refine Alone.call (findSite cfg tid key) setting reached (find_alone tidy turns) ?_
    rintro later flow (⟨location,word,rfl,-⟩ | ⟨g,rfl,blocked⟩) _
    · exact .reached (settles_idle _)
    · exact .reached (settles_blocked blocked)

/-- From the head of the search of a removal. A word just found is taken out at once. -/
theorem remove_turns {f : RemoveFrame} {g : FindFrame} (own : f.hash1 = g.hash1)
    (other : f.hash2 = g.hash2) (turns : g.Turns cfg flow)
    (reachable : Reachable cfg (s.put tid ((removeSite cfg tid f).land m flow))) :
    Alone cfg tid (Settles cfg tid) (s.put tid ((removeSite cfg tid f).land m flow)) := by
  have setting := settles_setting cfg tid
  have tidy : m.Tidy cfg := by
    obtain ⟨i,-,rfl,-⟩ := turns
    exact reachable_tidy reachable
  refine Alone.call (removeSite cfg tid f) setting reachable (find_alone tidy turns) ?_
  rintro n flow (⟨location,word,rfl,stands⟩ | ⟨h,rfl,blocked⟩) reached
  · by_cases missing : location = numItemsPerEntry * 2
    · have landed : (removeSite cfg tid f).land n (.returned (location,word)) =
          (n.respond tid (.remove f.key) (.truth false),.idle) := if_pos missing
      rw [landed]
      exact .reached (settles_idle _)
    · have goes : (removeSite cfg tid f).land n (.returned (location,word)) =
          (n,.remove (f.goto (.cas location word))) := if_neg missing
      rw [goes] at reached ⊢
      obtain ⟨empty,created⟩ := createPointer_exists (getCounter_le word) 0 false
      have found : n.hashTable (f.hashVal location) (location % numItemsPerEntry) = word := by
        have here := stands.resolve_left missing
        rwa [FindFrame.bucketOf,← own,← other] at here
      refine Alone.step setting reached (determined_cas f _ _) (advance_take found created) ?_
      exact fun _ => .reached (settles_idle _)
  · exact .reached (settles_blocked ⟨h,rfl,blocked⟩)

theorem enter_turns (cfg : Config) (key : Bytes) :
    (FindFrame.enter cfg key).Turns cfg (.running (.enter cfg key)) :=
  ⟨0,by decide,rfl,Nat.mod_lt _ cfg.positive,getNextHashIndex_lt cfg.positive _ _⟩

theorem cas_settles {f : RemoveFrame} (first : f.hash1 = (FindFrame.enter cfg f.key).hash1)
    (second : f.hash2 = (FindFrame.enter cfg f.key).hash2)
    (reachable : Reachable cfg (s.put tid (m,.remove (f.goto (.cas location ptr1))))) :
    Alone cfg tid (Settles cfg tid) (s.put tid (m,.remove (f.goto (.cas location ptr1)))) := by
  have setting := settles_setting cfg tid
  by_cases found : m.hashTable (f.hashVal location) (location % numItemsPerEntry) = ptr1
  · obtain ⟨word,created⟩ := createPointer_exists (getCounter_le ptr1) 0 false
    refine Alone.step setting reachable (determined_cas f _ _) (advance_take found created) ?_
    exact fun _ => .reached (settles_idle _)
  · refine Alone.step setting reachable (determined_cas f _ _) (advance_lost found) ?_
    exact remove_turns first second (enter_turns cfg f.key)

theorem remove_settles {f : RemoveFrame} (reachable : Reachable cfg s)
    (site : s.control tid = .remove f) : Alone cfg tid (Settles cfg tid) s := by
  have keyed : (Control.remove f).Keyed cfg := site ▸ (reachable_sound reachable).keyed tid
  have tidy := reachable_tidy reachable
  obtain ⟨first,second,searches⟩ := keyed
  cases pc : f.pc with
  | cas location ptr1 =>
    have start : s = s.put tid (s.memory,.remove (f.goto (.cas location ptr1))) := by
      conv_lhs => rw [← put_self s tid]
      rw [site,RemoveFrame.goto_self pc]
    rw [start] at reachable ⊢
    exact cas_settles first second reachable
  | find g =>
    have call : f.find? = some g := by simp [RemoveFrame.find?,pc]
    obtain ⟨-,own,other,-⟩ := searches g call
    have inside : g.Inside cfg := by
      have here := (reachable_inRange reachable).threads tid
      rw [site] at here
      exact here.2.2 g call
    have formed (frame : HelpFrame) (inner : g.help? = some frame) : frame.Formed cfg s.memory :=
      (reachable_formed reachable).help tid frame (by simpa [site,Control.help?,call] using inner)
    have start : s = s.put tid ((removeSite cfg tid f).land s.memory (.running g)) := by
      have here : (removeSite cfg tid f).land s.memory (.running g) = (s.memory,.remove f) := by
        rw [← RemoveFrame.goto_self pc]
        rfl
      conv_lhs => rw [← put_self s tid]
      rw [site,here]
    rw [start] at reachable ⊢
    refine Alone.call (removeSite cfg tid f) (settles_setting cfg tid) reachable
      (find_begins tidy inside formed) ?_
    rintro n flow (⟨⟨location,word⟩,rfl⟩ | turns) reached
    · by_cases missing : location = numItemsPerEntry * 2
      · have landed : (removeSite cfg tid f).land n (.returned (location,word)) =
            (n.respond tid (.remove f.key) (.truth false),.idle) := if_pos missing
        rw [landed]
        exact .reached (settles_idle _)
      · have goes : (removeSite cfg tid f).land n (.returned (location,word)) =
            (n,.remove (f.goto (.cas location word))) := if_neg missing
        rw [goes] at reached ⊢
        exact cas_settles first second reached
    · exact remove_turns (first.trans own.symm) (second.trans other.symm) turns reached

section

variable {f : InsertFrame}

/-- One kick slot. `back` is the way back to the probes, `failed` the way on. -/
theorem kick_settles {start : Memory} (rest : List Nat)
    (back : ∀ n, (n.slack cfg < start.slack cfg ∨
        getRealPointer (start.hashTable f.hash1 kickSlot) = 0) →
      Reachable cfg (s.put tid (n,.insert f.home)) →
      Alone cfg tid (Settles cfg tid) (s.put tid (n,.insert f.home)))
    (failed : ∀ n, (n.slack cfg < start.slack cfg ∨ n.hashTable = start.hashTable) →
      Reachable cfg (s.put tid (f.kicked tid n rest false)) →
      Alone cfg tid (Settles cfg tid) (s.put tid (f.kicked tid n rest false)))
    (slot : cfg.Slot f.hash1 kickSlot)
    (still : m.slack cfg < start.slack cfg ∨ m.hashTable = start.hashTable)
    (reachable : Reachable cfg (s.put tid (m,.insert (f.goto (.kick rest (.enter f.hash1 kickSlot)))))) :
    Alone cfg tid (Settles cfg tid)
      (s.put tid (m,.insert (f.goto (.kick rest (.enter f.hash1 kickSlot))))) := by
  have ends : Ends (relocate cfg tid) (Relocated cfg m ⟨f.hash1,kickSlot,[],0,.discover 0⟩ 0) m
      (.running (.enter f.hash1 kickSlot)) := relocate_alone (reachable_tidy reachable) slot 0
  refine Alone.call (kickSite cfg tid f rest) (settles_setting cfg tid) reachable ends ?_
  intro n flow outcome reached
  have left : m.slack cfg ≤ start.slack cfg := still.elim le_of_lt fun table => (slack_table table).le
  cases outcome with
  | @gained result less =>
    cases result with
    | true => exact back n (.inl (lt_of_lt_of_le less left)) reached
    | false => exact failed n (.inl (lt_of_lt_of_le less left)) reached
  | @idle result table empty =>
    cases result with
    | true =>
      refine back n (still.imp ?_ ?_) reached
      · exact (slack_table table).trans_lt
      · exact fun same => same ▸ empty rfl rfl
    | false =>
      refine failed n (still.imp ?_ ?_) reached
      · exact (slack_table table).trans_lt
      · exact fun same => table.trans same
  | @blocked g blocked => exact .reached (settles_blocked (.inr ⟨g,rfl,blocked⟩))

theorem kicks_settle {start : Memory}
    (back : ∀ n, (n.slack cfg < start.slack cfg ∨ ∃ i < numItemsPerEntry,
        getRealPointer (start.hashTable f.hash1 i) = 0) →
      Reachable cfg (s.put tid (n,.insert f.home)) →
      Alone cfg tid (Settles cfg tid) (s.put tid (n,.insert f.home)))
    (first : f.hash1 < cfg.tableSize) (rest : List Nat)
    (inside : ∀ i ∈ rest, i < numItemsPerEntry)
    (still : m.slack cfg < start.slack cfg ∨ m.hashTable = start.hashTable)
    (reachable : Reachable cfg (s.put tid (f.kicked tid m rest false))) :
    Alone cfg tid (Settles cfg tid) (s.put tid (f.kicked tid m rest false)) := by
  induction rest generalizing m with
  | nil => exact .reached (settles_idle _)
  | cons kickSlot rest ih =>
    refine kick_settles rest ?_ ?_ ⟨first,inside _ List.mem_cons_self⟩ still reachable
    · intro n progress
      exact back n (progress.imp_right fun empty => ⟨kickSlot,inside _ List.mem_cons_self,empty⟩)
    · intro n progress
      exact ih (fun i member => inside i (List.mem_cons_of_mem _ member)) progress

theorem shuffle_settles
    (back : ∀ n, (n.slack cfg < m.slack cfg ∨ ∃ i < numItemsPerEntry,
        getRealPointer (m.hashTable f.hash1 i) = 0) →
      Reachable cfg (s.put tid (n,.insert f.home)) →
      Alone cfg tid (Settles cfg tid) (s.put tid (n,.insert f.home)))
    (first : f.hash1 < cfg.tableSize)
    (reachable : Reachable cfg (s.put tid (m,.insert (f.goto .shuffle)))) :
    Alone cfg tid (Settles cfg tid) (s.put tid (m,.insert (f.goto .shuffle))) := by
  refine shuffle_alone (settles_setting cfg tid) reachable ?_
  intro kickSlot rest permuted
  refine kicks_settle (m := m) back first (kickSlot :: rest) ?_ (.inr rfl)
  intro i member
  exact List.mem_range.mp (permuted.subset member)

/-- From the first probe of a round: every further round has moved something. -/
theorem home_settles (first : f.hash1 < cfg.tableSize)
    (reachable : Reachable cfg (s.put tid (m,.insert f.home))) :
    Alone cfg tid (Settles cfg tid) (s.put tid (m,.insert f.home)) := by
  induction size : m.slack cfg using Nat.strongRecOn generalizing m with
  | ind left ih =>
    refine probes_alone (settles_setting cfg tid) ?_ (by simp) ?_ (by decide) reachable
    · exact fun _ _ _ _ _ _ _ => .reached (settles_idle _)
    · intro _ full reached
      refine shuffle_settles ?_ first reached
      rintro n (less | ⟨i,inside,empty⟩) back
      · exact ih _ (size ▸ less) back rfl
      · exact absurd empty (full i false (from_start false inside))

theorem stale_shuffle_settles (first : f.hash1 < cfg.tableSize)
    (reachable : Reachable cfg (s.put tid (m,.insert (f.goto .shuffle)))) :
    Alone cfg tid (Settles cfg tid) (s.put tid (m,.insert (f.goto .shuffle))) :=
  shuffle_settles (fun _ _ => home_settles first) first reachable

theorem probes_settle (first : f.hash1 < cfg.tableSize) (bound : i < numItemsPerEntry)
    (reachable : Reachable cfg (s.put tid (m,.insert (f.goto (.probe i second foundEmpty))))) :
    Alone cfg tid (Settles cfg tid) (s.put tid (m,.insert (f.goto (.probe i second foundEmpty)))) := by
  refine probes_alone (settles_setting cfg tid) ?_ ?_ ?_ bound reachable
  · exact fun _ _ _ _ _ _ _ => .reached (settles_idle _)
  · exact fun _ => home_settles first
  · exact fun _ _ => stale_shuffle_settles first

theorem nextProbe_settles (first : f.hash1 < cfg.tableSize) (bound : i < numItemsPerEntry)
    (foundEmpty : Bool)
    (reachable : Reachable cfg (s.put tid (m,.insert (f.nextProbe i second foundEmpty)))) :
    Alone cfg tid (Settles cfg tid) (s.put tid (m,.insert (f.nextProbe i second foundEmpty))) := by
  unfold InsertFrame.nextProbe at reachable ⊢
  repeat' split at reachable
  all_goals simp only [*,if_true,if_false]
  · exact probes_settle first bound reachable
  · exact probes_settle first (by assumption) reachable
  · exact probes_settle first (by decide) reachable
  · exact stale_shuffle_settles first reachable

theorem store_settles (first : f.hash1 < cfg.tableSize) (bound : i < numItemsPerEntry)
    (reachable : Reachable cfg (s.put tid (m,.insert (f.goto (.store i second ptr1))))) :
    Alone cfg tid (Settles cfg tid) (s.put tid (m,.insert (f.goto (.store i second ptr1)))) := by
  have setting := settles_setting cfg tid
  by_cases found : m.hashTable (f.bucket second) i = ptr1
  · obtain ⟨word,created⟩ := createPointer_exists (getCounter_le ptr1) f.newEntry false
    refine Alone.step setting reachable (determined_store f _ _ _) (advance_store found created) ?_
    exact fun _ => .reached (settles_idle _)
  · refine Alone.step setting reachable (determined_store f _ _ _) (advance_store_lost found) ?_
    exact nextProbe_settles first bound true

theorem kicked_settles (first : f.hash1 < cfg.tableSize)
    (inside : ∀ i ∈ rest, i < numItemsPerEntry) (moved : Bool)
    (reachable : Reachable cfg (s.put tid (f.kicked tid m rest moved))) :
    Alone cfg tid (Settles cfg tid) (s.put tid (f.kicked tid m rest moved)) := by
  cases moved with
  | true => exact home_settles first reachable
  | false =>
    have still : m.slack cfg < m.slack cfg ∨ m.hashTable = m.hashTable := .inr rfl
    exact kicks_settle (fun _ _ => home_settles first) first rest inside still reachable

theorem outside_settles {g : RelocateFrame} (first : f.hash1 < cfg.tableSize)
    (inside : ∀ i ∈ rest, i < numItemsPerEntry) (own : g.Inside cfg) (outside : g.help? = none)
    (reachable : Reachable cfg (s.put tid ((kickSite cfg tid f rest).land m (.running g)))) :
    Alone cfg tid (Settles cfg tid) (s.put tid ((kickSite cfg tid f rest).land m (.running g))) := by
  refine Alone.call (kickSite cfg tid f rest) (settles_setting cfg tid) reachable
    (relocate_finishes (reachable_tidy reachable) own outside) ?_
  rintro n flow (⟨moved,rfl⟩ | ⟨g,rfl,blocked⟩) reached
  · exact kicked_settles first inside moved reached
  · exact .reached (settles_blocked (.inr ⟨g,rfl,blocked⟩))

theorem insert_settles (reachable : Reachable cfg s) (site : s.control tid = .insert f) :
    Alone cfg tid (Settles cfg tid) s := by
  have inside : f.Inside cfg := by
    have here := (reachable_inRange reachable).threads tid
    rwa [site] at here
  obtain ⟨first,-,inner⟩ := inside
  have start (pc : InsertPc) (here : f.pc = pc) : s.put tid (s.memory,.insert (f.goto pc)) = s := by
    rw [InsertFrame.goto_self here,← site,put_self]
  cases pc : f.pc with
  | allocate =>
    rw [← start _ pc] at reachable ⊢
    refine allocate_alone (settles_setting cfg tid) reachable ?_ ?_
    · exact fun exhausted => settles_blocked (.inl ⟨rfl,exhausted⟩)
    · exact fun address _ => probes_settle first (by decide)
  | probe i second foundEmpty =>
    simp only [pc] at inner
    rw [← start _ pc] at reachable ⊢
    exact probes_settle first inner reachable
  | store i second ptr1 =>
    simp only [pc] at inner
    rw [← start _ pc] at reachable ⊢
    exact store_settles first inner reachable
  | shuffle =>
    rw [← start _ pc] at reachable ⊢
    exact stale_shuffle_settles first reachable
  | kick rest g =>
    simp only [pc] at inner
    have tidy := reachable_tidy reachable
    have formed := (reachable_formed reachable).help tid
    rw [site] at formed
    rw [← start _ pc] at reachable ⊢
    cases call : g.help? with
    | none => exact outside_settles first inner.1 inner.2 call reachable
    | some frame =>
      have shape : frame.Formed cfg s.memory :=
        formed frame (by simpa [Control.help?,InsertFrame.relocate?,pc] using call)
      refine Alone.call (kickSite cfg tid f rest) (settles_setting cfg tid) reachable
        (relocate_leaves_help tidy inner.2 call shape) ?_
      rintro n flow (⟨moved,rfl⟩ | ⟨g',rfl,outside⟩) reached
      · exact kicked_settles first inner.1 moved reached
      · have own := (reachable_inRange reached).threads tid
        rw [put_control] at own
        exact outside_settles first inner.1 own.2.2.2 outside reached

end

/-- From every reachable state the operation in progress ends or is obstructed. -/
theorem operation_settles (reachable : Reachable cfg s) : Alone cfg tid (Settles cfg tid) s := by
  cases site : s.control tid with
  | idle => exact .reached (.inl site)
  | insert f => exact insert_settles reachable site
  | find key f => exact find_settles reachable site
  | remove f => exact remove_settles reachable site

theorem solo_reachable (reachable : Reachable cfg s)
    (run : Relation.ReflTransGen (SoloStep cfg tid) s t) : Reachable cfg t :=
  Transition.run_invariant (Reachable cfg) (fun _ _ kept moved => moved.reachable kept) reachable run

theorem solo_aborts (moved : SoloStep cfg tid s t) (aborted : t.memory.aborted = true) :
    t.control tid ≠ .idle := by
  rw [(step_aborts moved.2 aborted).2]
  exact moved.1

theorem round_of [Calling Frame] {g : Memory → Frame → Memory × Flow Frame Result} [Stalling g]
    (site : Site cfg tid g) (reachable : Reachable cfg s) (here : s.control tid = site.frame f)
    (live : s.memory.aborted = false) {outcome : Memory → Flow Frame Result → Prop}
    (ends : Ends g outcome (g s.memory f).1 (g s.memory f).2)
    (stays : ∀ n flow, outcome n flow → ∃ f', flow = .running f' ∧ (site.frame f').Blocked cfg n) :
    ∃ t, Relation.TransGen (SoloStep cfg tid) s t ∧ Obstructed cfg tid t := by
  have moved : SoloStep cfg tid s (s.put tid (site.land (g s.memory f).1 (g s.memory f).2)) := by
    refine (solo_determined (by rw [here]; exact site.determined f)).mpr ⟨live,?_⟩
    rw [here,site.advances]
    rfl
  have around : Alone cfg tid (fun t => t.memory.aborted = true ∨ Obstructed cfg tid t)
      (s.put tid (site.land (g s.memory f).1 (g s.memory f).2)) := by
    refine Alone.call site (Aborting.reachable fun _ => .inl) (moved.reachable reachable) ends ?_
    intro n flow holds _
    obtain ⟨f',rfl,blocked⟩ := stays n flow holds
    refine .reached (.inr ⟨?_,.inr ?_⟩)
    · rw [put_control]
      exact (site.determined f').1
    · rwa [put_control]
  obtain ⟨t,run,outcome⟩ := around.exists_run
  have round : Relation.TransGen (SoloStep cfg tid) s t := .head' moved run
  refine ⟨t,round,?_⟩
  rcases outcome with aborted | obstructed
  · obtain ⟨u,-,last⟩ := Relation.TransGen.tail'_iff.mp round
    exact ⟨solo_aborts last aborted,.inl aborted⟩
  · exact obstructed

theorem obstructed_round (reachable : Reachable cfg s) (obstructed : Obstructed cfg tid s)
    (live : ∃ t, SoloStep cfg tid s t) :
    ∃ t, Relation.TransGen (SoloStep cfg tid) s t ∧ Obstructed cfg tid t := by
  have alive : s.memory.aborted = false := by
    obtain ⟨t,moved⟩ := live
    exact (soloStep_iff.mp moved).2.1
  have blocked := obstructed.2.resolve_left (by simp [alive])
  have inside := (reachable_inRange reachable).threads tid
  have tidy := reachable_tidy reachable
  cases site : s.control tid with
  | idle => exact absurd site obstructed.1
  | find key f =>
    rw [site] at blocked inside
    refine round_of (findSite cfg tid key) reachable site alive (find_stays tidy inside blocked) ?_
    exact fun n flow stays => stays
  | remove f =>
    rw [site] at blocked inside
    obtain ⟨g,call,blocked⟩ := blocked
    have here : s.control tid = (removeSite cfg tid f).frame g := by
      cases pc : f.pc with
      | find g' =>
        obtain rfl : g' = g := by simpa [RemoveFrame.find?,pc] using call
        rw [site,← RemoveFrame.goto_self pc]
        rfl
      | cas location ptr1 => simp [RemoveFrame.find?,pc] at call
    refine round_of (removeSite cfg tid f) reachable here alive
      (find_stays tidy (inside.2.2 g call) blocked) ?_
    rintro n flow ⟨g',same,still⟩
    exact ⟨g',same,g',rfl,still⟩
  | insert f =>
    rw [site] at blocked inside
    rcases blocked with ⟨pc,exhausted⟩ | ⟨g,call,blocked⟩
    · obtain ⟨t,moved⟩ := live
      rw [← put_self s tid,site,← InsertFrame.goto_self pc] at moved
      obtain ⟨-,address,fresh,-⟩ := allocate_moves.mp moved
      exact absurd fresh (exhausted address)
    · cases pc : f.pc with
      | kick rest g' =>
        obtain rfl : g' = g := by simpa [InsertFrame.relocate?,pc] using call
        have here : s.control tid = (kickSite cfg tid f rest).frame g' := by
          rw [site,← InsertFrame.goto_self pc]
          rfl
        have inner := inside.2.2
        simp only [pc] at inner
        refine round_of (kickSite cfg tid f rest) reachable here alive
          (relocate_stays tidy inner.2.1 blocked) ?_
        rintro n flow ⟨g,same,still⟩
        exact ⟨g,same,.inr ⟨g,rfl,still⟩⟩
      | _ => simp [InsertFrame.relocate?,pc] at call

theorem obstructed_never_returns (reachable : Reachable cfg s) (obstructed : Obstructed cfg tid s) :
    ¬Alone cfg tid (fun t => t.control tid = .idle) s := by
  refine Transition.Inevitable.not_of_cycle (fun s => Reachable cfg s ∧ Obstructed cfg tid s)
    ?_ ?_ ?_ ⟨reachable,obstructed⟩
  · exact fun _ _ moved => moved.1
  · exact fun _ here => here.2.1
  · rintro u ⟨reached,stands⟩ live
    obtain ⟨t,round,again⟩ := obstructed_round reached stands live
    exact ⟨t,round,solo_reachable reached round.to_reflTransGen,again⟩

/-- Exact obstruction freedom: alone, the operation in progress returns whatever its
choices if and only if no state its thread can come to alone is an obstructed one. -/
theorem returns_alone_iff (reachable : Reachable cfg s) :
    Alone cfg tid (fun t => t.control tid = .idle) s ↔
      ∀ t, Relation.ReflTransGen (SoloStep cfg tid) s t → ¬Obstructed cfg tid t := by
  constructor
  · intro alone t run obstructed
    refine obstructed_never_returns (solo_reachable reachable run) obstructed (alone.along ?_)
    exact run.lift id fun _ _ moved => ⟨moved.1,moved⟩
  · intro free
    refine ((operation_settles reachable).keep
      (fun t => Relation.ReflTransGen (SoloStep cfg tid) s t)
      (fun _ _ run moved => run.tail moved) .refl).mono ?_
    rintro t ⟨idle | obstructed,run⟩
    · exact idle
    · exact absurd obstructed (free t run)

/-- Thread 0 stops for good between the copy of `a` and the clearing of its source, and
thread 1 searches for `c`, whose first slot is that source. -/
def starvedSchedule : List (Nat × Action) := copiedSchedule ++ [(1,.invoke (.find keyC))]

theorem starved_obstructed : Obstructed sampleConfig 1 (endState sampleConfig starvedSchedule) := by
  have site : (endState sampleConfig starvedSchedule).control 1 =
      .find keyC (.enter sampleConfig keyC) := by decide +kernel
  refine ⟨by rw [site]; exact Control.noConfusion,.inr ?_⟩
  rw [site]
  refine ⟨rfl,.inl ⟨⟨?_,?_⟩,?_,?_⟩⟩ <;> decide +kernel

theorem starved_never_returns :
    ¬Alone sampleConfig 1 (fun t => t.control 1 = .idle) (endState sampleConfig starvedSchedule) :=
  fun alone => (returns_alone_iff (endState_reachable _ starvedSchedule)).mp alone _ .refl
    starved_obstructed

theorem search_starves : ∃ s, Reachable sampleConfig s ∧
    s.control 1 = .find keyC (.enter sampleConfig keyC) ∧
    ¬Alone sampleConfig 1 (fun t => t.control 1 = .idle) s :=
  ⟨endState sampleConfig starvedSchedule,endState_reachable _ _,by decide +kernel,
    obstructed_never_returns (endState_reachable _ _) starved_obstructed⟩

end CuckooFilter.LockFree
