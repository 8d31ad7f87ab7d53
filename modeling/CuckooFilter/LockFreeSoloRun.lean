import CuckooFilter.LockFreeSoloRelocate

/-! Operations alone: one thread moves while every other one stands still. Runs of a
call become runs of the machine, and the steps of insertion and removal around their
calls are followed one by one. -/
namespace CuckooFilter.LockFree

variable {cfg : Config} {tid : Nat} {s t : System} {m n : Memory} {good goal : System → Prop}

/-- A step of thread `tid` inside its operation. -/
def SoloStep (cfg : Config) (tid : Nat) (s t : System) : Prop :=
  s.control tid ≠ .idle ∧ StepBy cfg tid s t

/-- Alone, the thread comes to the goal, whatever its choices. -/
abbrev Alone (cfg : Config) (tid : Nat) (goal : System → Prop) (s : System) : Prop :=
  Transition.Inevitable (SoloStep cfg tid) goal s

/-- The process has aborted with the thread before a counter above `UINT16_MAX`. -/
def System.Overflows (tid : Nat) (s : System) : Prop :=
  s.memory.aborted = true ∧ ∃ frame, (s.control tid).help? = some frame ∧ frame.Overflows

/-- Where the process aborts on the way, a counter did not fit. -/
theorem Alone.overflows (live : s.memory.aborted = false)
    (alone : Alone cfg tid (fun t => t.memory.aborted = true ∨ goal t) s) :
    Alone cfg tid (fun t => t.Overflows tid ∨ goal t) s := by
  have both := alone.keep (fun t => t.memory.aborted = true → t.Overflows tid) ?_ (by simp [live])
  · refine both.mono fun t => ?_
    rintro ⟨aborted | here,beyond⟩
    · exact .inl (beyond aborted)
    · exact .inr here
  · intro s t _ moved aborted
    obtain ⟨request,same⟩ := step_aborts moved.2 aborted
    exact ⟨aborted,same ▸ request⟩

/-- The state with another memory and another control point of one thread. -/
def System.put (s : System) (tid : Nat) (c : Memory × Control) : System :=
  ⟨c.1,fun other => if other = tid then c.2 else s.control other⟩

@[simp] theorem put_memory (s : System) (tid : Nat) (c : Memory × Control) :
    (s.put tid c).memory = c.1 := rfl
@[simp] theorem put_control (s : System) (tid : Nat) (c : Memory × Control) :
    (s.put tid c).control tid = c.2 := if_pos rfl
@[simp] theorem put_put (s : System) (tid : Nat) (c d : Memory × Control) :
    (s.put tid c).put tid d = s.put tid d := by
  unfold System.put
  congr
  funext other
  split <;> simp_all

theorem put_self (s : System) (tid : Nat) : s.put tid (s.memory,s.control tid) = s := by
  unfold System.put
  congr
  funext other
  split
  · rename_i same
    rw [same]
  · rfl

theorem SoloStep.reachable (reachable : Reachable cfg s) (moved : SoloStep cfg tid s t) :
    Reachable cfg t :=
  reachable.step moved.2

/-- A step is the thread's own step, put back into the state. -/
theorem soloStep_iff : SoloStep cfg tid s t ↔ s.control tid ≠ .idle ∧ s.memory.aborted = false ∧
    ∃ action c, threadStep cfg tid s.memory (s.control tid) action = some c ∧ t = s.put tid c := by
  constructor
  · rintro ⟨busy,action,moved⟩
    refine ⟨busy,?_⟩
    unfold step at moved
    split at moved
    · contradiction
    · rename_i live
      split at moved
      · contradiction
      · rename_i memory control stepped
        cases moved
        exact ⟨Bool.eq_false_iff.mpr live,action,_,stepped,rfl⟩
  · rintro ⟨busy,live,action,c,stepped,rfl⟩
    exact ⟨busy,action,by simp only [step,live,stepped]; rfl⟩

/-- A run of the thread to the end of its operation has come to the goal. -/
theorem Alone.lands (final : ∀ u, goal u → u.memory.aborted = true ∨ u.control tid = .idle)
    (alone : Alone cfg tid goal s) (run : Relation.ReflTransGen (SoloStep cfg tid) s t)
    (idle : t.control tid = .idle) : goal t := by
  have before : Relation.ReflTransGen (fun a b => ¬goal a ∧ SoloStep cfg tid a b) s t := by
    refine Relation.ReflTransGen.mono ?_ _ _ run
    intro a b moved
    refine ⟨fun here => ?_,moved⟩
    obtain ⟨busy,live,-⟩ := soloStep_iff.mp moved
    rcases final a here with aborted | rests
    · exact absurd aborted (Bool.eq_false_iff.mp live)
    · exact busy rests
  cases alone.along before with
  | reached here => exact here
  | later live =>
    obtain ⟨u,busy,-⟩ := live
    exact absurd idle busy

/-- The control points whose next step is determined. -/
def Control.Determined (c : Control) : Prop :=
  c ≠ .idle ∧ c.pending ≠ some .allocate ∧ c.pending ≠ some .shuffle

theorem threadStep_determined {c : Control} (determined : c.Determined) :
    threadStep cfg tid m c action = some next ↔ action = .run ∧ next = advance cfg tid m c := by
  obtain ⟨busy,allocate,shuffle⟩ := determined
  cases action with
  | run =>
    simp only [threadStep,busy,allocate,shuffle,or_self,if_false,Option.some.injEq,true_and]
    exact eq_comm
  | invoke call => simp [threadStep,busy]
  | allocate address =>
    cases c with
    | insert frame =>
      have other : frame.pc ≠ .allocate := by simpa [Control.pending] using allocate
      simp [threadStep,other]
    | _ => simp [threadStep]
  | shuffle order =>
    cases c with
    | insert frame =>
      have other : frame.pc ≠ .shuffle := by simpa [Control.pending] using shuffle
      simp [threadStep,other]
    | _ => simp [threadStep]

theorem solo_determined (determined : (s.control tid).Determined) :
    SoloStep cfg tid s t ↔ s.memory.aborted = false ∧
      t = s.put tid (advance cfg tid s.memory (s.control tid)) := by
  rw [soloStep_iff]
  constructor
  · rintro ⟨-,live,action,c,stepped,rfl⟩
    obtain ⟨-,rfl⟩ := (threadStep_determined determined).mp stepped
    exact ⟨live,rfl⟩
  · rintro ⟨live,rfl⟩
    exact ⟨determined.1,live,.run,_,(threadStep_determined determined).mpr ⟨rfl,rfl⟩,rfl⟩

/-- A goal that holds once the process has aborted. -/
def Aborting (goal : System → Prop) : Prop := ∀ t, t.memory.aborted = true → goal t

/-- What is known of the states on the way to such a goal. -/
structure Setting (cfg : Config) (tid : Nat) (good goal : System → Prop) : Prop where
  aborting : Aborting goal
  kept : ∀ s t, good s → SoloStep cfg tid s t → good t

theorem Aborting.reachable (aborting : Aborting goal) : Setting cfg tid (Reachable cfg) goal :=
  ⟨aborting,fun _ _ reachable moved => moved.reachable reachable⟩

theorem Alone.next (setting : Setting cfg tid good goal) (here : good s)
    (determined : (s.control tid).Determined)
    (rest : ∀ t, good t → t = s.put tid (advance cfg tid s.memory (s.control tid)) →
      Alone cfg tid goal t) : Alone cfg tid goal s := by
  cases live : s.memory.aborted with
  | true => exact .reached (setting.aborting s live)
  | false =>
    have moved : SoloStep cfg tid s (s.put tid (advance cfg tid s.memory (s.control tid))) :=
      (solo_determined determined).mpr ⟨live,rfl⟩
    refine Transition.Inevitable.next moved (fun t other => ((solo_determined determined).mp other).2) ?_
    exact rest _ (setting.kept _ _ here moved) rfl

/-- Where a call leaves its thread: in a frame of the call, or back in the caller. -/
def landing (frame : Frame → Control) (back : Memory → Result → Memory × Control) (m : Memory) :
    Flow Frame Result → Memory × Control
  | .running f => (m,frame f)
  | .returned result => back m result

/-- A place in an operation that calls the function `g`. -/
structure Site (cfg : Config) (tid : Nat) (g : Memory → Frame → Memory × Flow Frame Result) where
  frame : Frame → Control
  back : Memory → Result → Memory × Control
  determined : ∀ f, (frame f).Determined
  advances : ∀ m f, advance cfg tid m (frame f) = landing frame back (g m f).1 (g m f).2
  aborts : ∀ m result, (back m result).1.aborted = m.aborted

def Site.land {g : Memory → Frame → Memory × Flow Frame Result} (site : Site cfg tid g)
    (m : Memory) (flow : Flow Frame Result) : Memory × Control :=
  landing site.frame site.back m flow

/-- A call that ends alone ends in the operation that made it. -/
theorem Alone.call [Calling Frame] {g : Memory → Frame → Memory × Flow Frame Result} [Stalling g]
    (site : Site cfg tid g) (setting : Setting cfg tid good goal) (here : good (s.put tid (site.land m flow)))
    {outcome : Memory → Flow Frame Result → Prop} (ends : Ends g outcome m flow)
    (after : ∀ n flow, outcome n flow → good (s.put tid (site.land n flow)) →
      Alone cfg tid goal (s.put tid (site.land n flow))) :
    Alone cfg tid goal (s.put tid (site.land m flow)) := by
  have moves (n : Memory) (f : Frame) (live : n.aborted = false) (t : System) :
      SoloStep cfg tid (s.put tid (n,site.frame f)) t ↔
        t = s.put tid (site.land (g n f).1 (g n f).2) := by
    have own : (s.put tid (n,site.frame f)).control tid = site.frame f := put_control s tid _
    rw [solo_determined (by rw [own]; exact site.determined f),own,put_memory,site.advances,
      put_put]
    exact and_iff_right live
  have kept : Transition.Inevitable (Calls g) (fun c => (c.1.aborted = true ∨ outcome c.1 c.2) ∧
      good (s.put tid (site.land c.1 c.2))) (m,flow) :=
    Transition.Inevitable.keep _ ?_ here (ends_iff.mp ends)
  · refine Transition.Inevitable.embed (fun c => s.put tid (site.land c.1 c.2)) ?_ ?_ kept ?_
    · rintro ⟨n,flow⟩ d ⟨f,rfl,live,rfl⟩
      exact ⟨_,(moves n f live _).mpr rfl⟩
    · rintro ⟨n,flow⟩ d u ⟨f,rfl,live,rfl⟩ moved
      exact ⟨_,⟨f,rfl,live,rfl⟩,(moves n f live u).mp moved⟩
    · rintro ⟨n,flow⟩ ⟨aborted | holds,reached⟩
      · refine .reached (setting.aborting _ ?_)
        cases flow with
        | running f => exact aborted
        | returned result => exact (site.aborts n result).trans aborted
      · exact after n flow holds reached
  · rintro ⟨n,flow⟩ d reached ⟨f,rfl,live,rfl⟩
    exact setting.kept _ _ reached ((moves n f live _).mpr rfl)

def findSite (cfg : Config) (tid : Nat) (key : Bytes) : Site cfg tid (find cfg tid) where
  frame := .find key
  back n result := (n.respond tid (.find key) (.location result.1),.idle)
  determined f := by simp [Control.Determined,Control.pending]
  advances m f := by
    simp only [advance]
    cases find cfg tid m f with | mk next flow =>
    cases flow <;> rfl
  aborts _ _ := rfl

def removeSite (cfg : Config) (tid : Nat) (f : RemoveFrame) : Site cfg tid (find cfg tid) where
  frame g := .remove (f.goto (.find g))
  back n result :=
    if result.1 = numItemsPerEntry * 2 then
      (n.respond tid (.remove f.key) (.truth false),.idle)
    else (n,.remove (f.goto (.cas result.1 result.2)))
  determined g := by simp [Control.Determined,Control.pending]
  advances m g := by
    simp only [advance,remove,RemoveFrame.goto]
    cases find cfg tid m g with | mk next flow =>
    cases flow with
    | running g => rfl
    | returned result =>
      by_cases missing : result.1 = numItemsPerEntry * 2
      · simp only [landing,missing,if_true]
      · simp only [landing,missing,if_false]
  aborts n result := by split <;> rfl

abbrev InsertFrame.home (f : InsertFrame) : InsertFrame := f.goto (.probe 0 false false)

/-- Where an insertion goes after the relocation of one kick slot. -/
def InsertFrame.kicked (f : InsertFrame) (tid : Nat) (n : Memory) (rest : List Nat)
    (moved : Bool) : Memory × Control :=
  if moved then (n,.insert (f.goto (.probe 0 false false)))
  else
    match rest with
    | [] => (n.respond tid (.insert f.key) (.truth false),.idle)
    | kickSlot :: rest => (n,.insert (f.goto (.kick rest (.enter f.hash1 kickSlot))))

def kickSite (cfg : Config) (tid : Nat) (f : InsertFrame) (rest : List Nat) :
    Site cfg tid (relocate cfg tid) where
  frame g := .insert (f.goto (.kick rest g))
  back n moved := f.kicked tid n rest moved
  determined g := by simp [Control.Determined,Control.pending,InsertFrame.goto]
  advances m g := by
    simp only [advance,insert,InsertFrame.goto]
    cases relocate cfg tid m g with | mk next flow =>
    cases flow with
    | running g => rfl
    | returned moved => cases moved <;> cases rest <;> rfl
  aborts n moved := by cases moved <;> cases rest <;> rfl

def InsertFrame.placed (f : InsertFrame) (tid : Nat) (m : Memory) (second : Bool) (i : Nat)
    (word : TablePointer) : Memory :=
  ((m.write (f.bucket second) i word).recordStored
    ⟨tid,f.key,f.newEntry,f.bucket second,i⟩).respond tid (.insert f.key) (.truth true)

theorem determined_probe (f : InsertFrame) (i : Nat) (second foundEmpty : Bool) :
    (Control.insert (f.goto (.probe i second foundEmpty))).Determined := by
  simp [Control.Determined,Control.pending,InsertFrame.goto]

theorem determined_store (f : InsertFrame) (i : Nat) (second : Bool) (ptr1 : TablePointer) :
    (Control.insert (f.goto (.store i second ptr1))).Determined := by
  simp [Control.Determined,Control.pending,InsertFrame.goto]

/-- One determined step from a state that was put together. -/
theorem Alone.step (setting : Setting cfg tid good goal) (here : good (s.put tid (m,c)))
    (determined : c.Determined) (stepped : advance cfg tid m c = after)
    (rest : good (s.put tid after) → Alone cfg tid goal (s.put tid after)) :
    Alone cfg tid goal (s.put tid (m,c)) := by
  refine Alone.next setting here (by rw [put_control]; exact determined) ?_
  rintro t reached rfl
  rw [put_control,put_memory,put_put] at reached ⊢
  rw [stepped] at reached ⊢
  exact rest reached

theorem advance_store_lost {f : InsertFrame} (changed : m.hashTable (f.bucket second) i ≠ ptr1) :
    advance cfg tid m (.insert (f.goto (.store i second ptr1))) =
      (m,.insert (f.nextProbe i second true)) := by
  obtain ⟨word,created⟩ := createPointer_exists (getCounter_le ptr1) f.newEntry false
  simp only [advance,insert,InsertFrame.goto,InsertFrame.bucket] at changed created ⊢
  simp only [created,Memory.compareAndSwap,changed,if_false]
  rfl

theorem advance_store {f : InsertFrame} (found : m.hashTable (f.bucket second) i = ptr1)
    (created : createPointer (getCounter ptr1) f.newEntry false = some word) :
    advance cfg tid m (.insert (f.goto (.store i second ptr1))) =
      (f.placed tid m second i word,.idle) := by
  subst found
  simp only [advance,insert,InsertFrame.goto,InsertFrame.bucket] at created ⊢
  simp only [created,Memory.compareAndSwap,if_true]
  rfl

theorem store_now (setting : Setting cfg tid good goal) {f : InsertFrame}
    (here : good (s.put tid (m,.insert (f.goto (.store i second
      (m.hashTable (f.bucket second) i))))))
    (stored : ∀ word, createPointer (getCounter (m.hashTable (f.bucket second) i)) f.newEntry false =
        some word → good (s.put tid (f.placed tid m second i word,.idle)) →
      Alone cfg tid goal (s.put tid (f.placed tid m second i word,.idle))) :
    Alone cfg tid goal (s.put tid (m,.insert (f.goto (.store i second
      (m.hashTable (f.bucket second) i))))) := by
  obtain ⟨word,created⟩ :=
    createPointer_exists (getCounter_le (m.hashTable (f.bucket second) i)) f.newEntry false
  exact Alone.step setting here (determined_store f _ _ _) (advance_store rfl created)
    (stored word created)

def probesLeft (i : Nat) (second : Bool) : Nat :=
  2 * (numItemsPerEntry - i) - second.toNat

def From (i : Nat) (second : Bool) (j : Nat) (side : Bool) : Prop :=
  j < numItemsPerEntry ∧ (i < j ∨ i = j ∧ (second = true → side = true))

theorem from_start (side : Bool) (inside : j < numItemsPerEntry) : From 0 false j side := by
  refine ⟨inside,?_⟩
  rcases Nat.eq_zero_or_pos j with rfl | later
  · exact .inr ⟨rfl,by simp⟩
  · exact .inl later

theorem probes_alone (setting : Setting cfg tid good goal) {f : InsertFrame}
    (stored : ∀ second i, i < numItemsPerEntry →
      getRealPointer (m.hashTable (f.bucket second) i) = 0 → ∀ word,
      createPointer (getCounter (m.hashTable (f.bucket second) i)) f.newEntry false = some word →
      good (s.put tid (f.placed tid m second i word,.idle)) →
      Alone cfg tid goal (s.put tid (f.placed tid m second i word,.idle)))
    (again : foundEmpty = true → good (s.put tid (m,.insert (f.goto (.probe 0 false false)))) →
      Alone cfg tid goal (s.put tid (m,.insert (f.goto (.probe 0 false false)))))
    (full : foundEmpty = false →
      (∀ j side, From i second j side → getRealPointer (m.hashTable (f.bucket side) j) ≠ 0) →
      good (s.put tid (m,.insert (f.goto .shuffle))) →
      Alone cfg tid goal (s.put tid (m,.insert (f.goto .shuffle))))
    (bound : i < numItemsPerEntry)
    (here : good (s.put tid (m,.insert (f.goto (.probe i second foundEmpty))))) :
    Alone cfg tid goal (s.put tid (m,.insert (f.goto (.probe i second foundEmpty)))) := by
  induction left : probesLeft i second generalizing i second with
  | zero =>
    have : second.toNat ≤ 1 := Bool.toNat_le second
    simp only [probesLeft] at left
    omega
  | succ k ih =>
    by_cases empty : getRealPointer (m.hashTable (f.bucket second) i) = 0
    · have read : advance cfg tid m (.insert (f.goto (.probe i second foundEmpty))) =
          (m,.insert (f.goto (.store i second (m.hashTable (f.bucket second) i)))) := by
        simp only [advance,insert,InsertFrame.goto,InsertFrame.bucket] at empty ⊢
        simp only [empty,if_true]
      refine Alone.step setting here (determined_probe f _ _ _) read fun reached => ?_
      exact store_now setting reached (stored second i bound empty)
    · have read : advance cfg tid m (.insert (f.goto (.probe i second foundEmpty))) =
          (m,.insert (f.nextProbe i second foundEmpty)) := by
        simp only [advance,insert,InsertFrame.goto,InsertFrame.bucket] at empty ⊢
        simp only [empty,if_false]
        rfl
      refine Alone.step setting here (determined_probe f _ _ _) read fun reached => ?_
      cases second with
      | false =>
        refine ih ?_ bound reached ?_
        · intro none filled
          refine full none fun j side later => ?_
          rcases later with ⟨inside,after | ⟨rfl,-⟩⟩
          · exact filled j side ⟨inside,.inl after⟩
          · cases side with
            | false => exact empty
            | true => exact filled i true ⟨inside,.inr ⟨rfl,fun _ => rfl⟩⟩
        · simp only [probesLeft,Bool.toNat_true,Bool.toNat_false] at left ⊢
          omega
      | true =>
        by_cases more : i + 1 < numItemsPerEntry
        · have next : f.nextProbe i true foundEmpty = f.goto (.probe (i + 1) false foundEmpty) := by
            simp [InsertFrame.nextProbe,more]
          rw [next] at reached ⊢
          refine ih ?_ more reached ?_
          · intro none filled
            refine full none fun j side later => ?_
            rcases later with ⟨inside,after | ⟨rfl,both⟩⟩
            · refine filled j side ⟨inside,?_⟩
              rcases Nat.lt_or_eq_of_le after with further | rfl
              · exact .inl further
              · exact .inr ⟨rfl,by simp⟩
            · rw [both rfl]
              exact empty
          · simp only [probesLeft,Bool.toNat_true,Bool.toNat_false] at left ⊢
            omega
        · cases foundEmpty with
          | true =>
            have next : f.nextProbe i true true = f.goto (.probe 0 false false) := by
              simp [InsertFrame.nextProbe,more]
            rw [next] at reached ⊢
            exact again rfl reached
          | false =>
            have next : f.nextProbe i true false = f.goto .shuffle := by
              simp [InsertFrame.nextProbe,more]
            rw [next] at reached ⊢
            refine full rfl (fun j side later => ?_) reached
            rcases later with ⟨inside,after | ⟨rfl,both⟩⟩
            · omega
            · rw [both rfl]
              exact empty

theorem shuffle_moves {f : InsertFrame} :
    SoloStep cfg tid (s.put tid (m,.insert (f.goto .shuffle))) t ↔ m.aborted = false ∧
      ∃ kickSlot rest, (kickSlot :: rest).Perm (List.range numItemsPerEntry) ∧
        t = s.put tid (m,.insert (f.goto (.kick rest (.enter f.hash1 kickSlot)))) := by
  rw [soloStep_iff,put_control,put_memory]
  constructor
  · rintro ⟨-,live,action,c,stepped,rfl⟩
    refine ⟨live,?_⟩
    rw [put_put]
    cases action with
    | shuffle order =>
      cases order with
      | nil => simp [threadStep,InsertFrame.nextKick] at stepped
      | cons kickSlot rest =>
        simp only [threadStep,InsertFrame.nextKick] at stepped
        split at stepped
        · rename_i permuted
          cases stepped
          exact ⟨kickSlot,rest,permuted.2,rfl⟩
        · contradiction
    | run => simp [threadStep,Control.pending,InsertFrame.goto] at stepped
    | invoke call => simp [threadStep] at stepped
    | allocate address => simp [threadStep,InsertFrame.goto] at stepped
  · rintro ⟨live,kickSlot,rest,permuted,rfl⟩
    refine ⟨by simp,live,.shuffle (kickSlot :: rest),_,?_,(put_put s tid _ _).symm⟩
    simp only [threadStep,InsertFrame.nextKick]
    exact if_pos ⟨rfl,permuted⟩

theorem shuffle_alone (setting : Setting cfg tid good goal) {f : InsertFrame}
    (here : good (s.put tid (m,.insert (f.goto .shuffle))))
    (kicks : ∀ kickSlot rest, (kickSlot :: rest).Perm (List.range numItemsPerEntry) →
      good (s.put tid (m,.insert (f.goto (.kick rest (.enter f.hash1 kickSlot))))) →
      Alone cfg tid goal (s.put tid (m,.insert (f.goto (.kick rest (.enter f.hash1 kickSlot)))))) :
    Alone cfg tid goal (s.put tid (m,.insert (f.goto .shuffle))) := by
  cases live : m.aborted with
  | true => exact .reached (setting.aborting _ live)
  | false =>
    refine .later ⟨_,shuffle_moves.mpr ⟨live,0,[1,2,3],.refl _,rfl⟩⟩ ?_
    intro t moved
    have reached := setting.kept _ _ here moved
    obtain ⟨-,kickSlot,rest,permuted,rfl⟩ := shuffle_moves.mp moved
    exact kicks kickSlot rest permuted reached

theorem allocate_moves {f : InsertFrame} :
    SoloStep cfg tid (s.put tid (m,.insert (f.goto .allocate))) t ↔ m.aborted = false ∧
      ∃ address, m.Fresh address ∧ t = s.put tid (m.allocate address f.fingerprint,
        .insert (InsertFrame.goto { f with newEntry := address } (.probe 0 false false))) := by
  rw [soloStep_iff,put_control,put_memory]
  constructor
  · rintro ⟨-,live,action,c,stepped,rfl⟩
    refine ⟨live,?_⟩
    rw [put_put]
    cases action with
    | allocate address =>
      simp only [threadStep] at stepped
      split at stepped
      · rename_i fresh
        cases stepped
        exact ⟨address,fresh.2,rfl⟩
      · contradiction
    | run => simp [threadStep,Control.pending,InsertFrame.goto] at stepped
    | invoke call => simp [threadStep] at stepped
    | shuffle order => simp [threadStep,InsertFrame.goto] at stepped
  · rintro ⟨live,address,fresh,rfl⟩
    refine ⟨by simp,live,.allocate address,_,?_,(put_put s tid _ _).symm⟩
    simp only [threadStep]
    exact if_pos ⟨rfl,fresh⟩

theorem allocate_alone (setting : Setting cfg tid good goal) {f : InsertFrame}
    (here : good (s.put tid (m,.insert (f.goto .allocate))))
    (exhausted : (∀ address, ¬m.Fresh address) → goal (s.put tid (m,.insert (f.goto .allocate))))
    (rest : ∀ address, m.Fresh address →
      good (s.put tid (m.allocate address f.fingerprint,
        .insert (InsertFrame.goto { f with newEntry := address } (.probe 0 false false)))) →
      Alone cfg tid goal (s.put tid (m.allocate address f.fingerprint,
        .insert (InsertFrame.goto { f with newEntry := address } (.probe 0 false false))))) :
    Alone cfg tid goal (s.put tid (m,.insert (f.goto .allocate))) := by
  cases live : m.aborted with
  | true => exact .reached (setting.aborting _ live)
  | false =>
    by_cases some : ∃ address, m.Fresh address
    · obtain ⟨address,fresh⟩ := some
      refine .later ⟨_,allocate_moves.mpr ⟨live,address,fresh,rfl⟩⟩ ?_
      intro t moved
      have reached := setting.kept _ _ here moved
      obtain ⟨-,address,fresh,rfl⟩ := allocate_moves.mp moved
      exact rest address fresh reached
    · exact .reached (exhausted (not_exists.mp some))

def RemoveFrame.taken (f : RemoveFrame) (tid : Nat) (m : Memory) (location : Nat)
    (ptr1 word : TablePointer) : Memory :=
  (((m.write (f.hashVal location) (location % numItemsPerEntry) word).retireKey ptr1 tid).recordRemoved
    ⟨tid,f.key,getRealPointer ptr1,f.hashVal location,location % numItemsPerEntry⟩).respond tid
      (.remove f.key) (.truth true)

theorem determined_cas (f : RemoveFrame) (location : Nat) (ptr1 : TablePointer) :
    (Control.remove (f.goto (.cas location ptr1))).Determined := by
  simp [Control.Determined,Control.pending]

theorem advance_take {f : RemoveFrame}
    (found : m.hashTable (f.hashVal location) (location % numItemsPerEntry) = ptr1)
    (created : createPointer (getCounter ptr1) 0 false = some word) :
    advance cfg tid m (.remove (f.goto (.cas location ptr1))) =
      (f.taken tid m location ptr1 word,.idle) := by
  simp only [advance,remove,RemoveFrame.goto,RemoveFrame.hashVal] at found ⊢
  simp only [created,Memory.compareAndSwap,found,if_true]
  rfl

theorem advance_lost {f : RemoveFrame}
    (changed : m.hashTable (f.hashVal location) (location % numItemsPerEntry) ≠ ptr1) :
    advance cfg tid m (.remove (f.goto (.cas location ptr1))) =
      (m.clearHazard tid,.remove (f.goto (.find (.enter cfg f.key)))) := by
  obtain ⟨word,created⟩ := createPointer_exists (getCounter_le ptr1) 0 false
  simp only [advance,remove,RemoveFrame.goto,RemoveFrame.hashVal] at changed ⊢
  simp only [created,Memory.compareAndSwap,changed,if_false]

end CuckooFilter.LockFree
