import CuckooFilter.FineGrainedBalance
import CuckooFilter.FineGrainedProgram

/-! The interleaved accesses against the machine whose sections are single steps. A run in
which no access meets a section of another thread is a run of that machine, with the same
answers for every thread. -/
namespace CuckooFilter.FineGrained

variable {cfg : Config} {a : Threads} {s t : System} {g : InsertFrame} {tid : Nat}

def InsertPc.kick? : InsertPc → Option Nat
  | .swap n _ | .write n _ _ _ | .place n _ => some n
  | _ => none

def InsertFrame.Counts (f : InsertFrame) : Prop := ∀ n, f.pc.kick? = some n → n < numMaxKicks

/-- What a running insertion has left to do. -/
def InsertFrame.code (cfg : Config) (f : InsertFrame) : Code Nat :=
  match f.pc with
  | .first => storeCode f.hash1 f.fingerprint (storeCode f.hash2 f.fingerprint
      (replaceCode cfg f.fingerprint f.hash1 f.hash2))
  | .second => storeCode f.hash2 f.fingerprint (replaceCode cfg f.fingerprint f.hash1 f.hash2)
  | .flag => replaceCode cfg f.fingerprint f.hash1 f.hash2
  | .swap n b => kickCode cfg f.fingerprint b (numMaxKicks - n)
  | .write n b i victim => swapWrite cfg f.fingerprint b i victim (numMaxKicks - (n + 1))
  | .place n b => storeCode b f.fingerprint (kickCode cfg f.fingerprint b (numMaxKicks - (n + 1)))

theorem kicks_left (less : n < numMaxKicks) (fingerprint : Bytes) (b : Nat) :
    kickCode cfg fingerprint b (numMaxKicks - n) = .choose fun rand =>
      swapRead cfg fingerprint b (rand % numItemsPerEntry) (numMaxKicks - (n + 1)) := by
  rw [← kick_succ]
  congr 1
  omega

variable (cfg) in
/-- Where a running insertion is, by what it does next. -/
theorem insert_next (counts : g.Counts) :
    (∃ bucket full, g.code cfg = storeCode bucket g.fingerprint full) ∨
    (g.pc = .flag ∧ g.code cfg = replaceCode cfg g.fingerprint g.hash1 g.hash2) ∨
    (∃ n b, g.pc = .swap n b ∧ g.code cfg = .choose fun rand =>
      swapRead cfg g.fingerprint b (rand % numItemsPerEntry) (numMaxKicks - (n + 1))) ∨
    ∃ n b i victim, g.pc = .write n b i victim ∧
      g.code cfg = swapWrite cfg g.fingerprint b i victim (numMaxKicks - (n + 1)) := by
  unfold InsertFrame.code
  cases pc : g.pc with
  | first => exact .inl ⟨_,_,rfl⟩
  | second => exact .inl ⟨_,_,rfl⟩
  | place n b => exact .inl ⟨_,_,rfl⟩
  | flag => exact .inr (.inl ⟨rfl,rfl⟩)
  | swap n b =>
    exact .inr (.inr (.inl ⟨n,b,rfl,kicks_left (counts n (by rw [pc]; rfl)) g.fingerprint b⟩))
  | write n b i victim => exact .inr (.inr (.inr ⟨n,b,i,victim,rfl,rfl⟩))

def LookFrame.code (f : LookFrame) (scan : Nat → Bytes → Code Nat → Code Nat) : Code Nat :=
  if f.second then scan f.hash2 f.fingerprint (.done false)
  else scan f.hash1 f.fingerprint (scan f.hash2 f.fingerprint (.done false))

theorem look_next (f : LookFrame) (scan : Nat → Bytes → Code Nat → Code Nat) :
    ∃ bucket miss, f.code scan = scan bucket f.fingerprint miss := by
  unfold LookFrame.code
  split
  · exact ⟨_,_,rfl⟩
  · exact ⟨_,_,rfl⟩

/-- A thread on the slots and the frame of its call. A thread that has its answer is idle
in the other machine. -/
inductive Follows (cfg : Config) : Locking.Thread Call Nat Slot Bytes Bool → Control → Prop where
  | idle : Follows cfg .idle .idle
  | answered {program : Code Nat} (ended : program = .done answer) :
      Follows cfg (.running call program) .idle
  | insert {program : Code Nat} (f : InsertFrame) (counts : f.Counts)
      (site : program = f.code cfg) : Follows cfg (.running (.insert f.key) program) (.insert f)
  | swap {program : Code Nat} (f : InsertFrame) (counts : f.Counts) (pc : f.pc = .swap n b)
      (slot : i < numItemsPerEntry)
      (site : program = swapRead cfg f.fingerprint b i (numMaxKicks - (n + 1))) :
      Follows cfg (.running (.insert f.key) program) (.insert f)
  | find {program : Code Nat} (f : LookFrame) (site : program = f.code lookCode) :
      Follows cfg (.running (.find f.key) program) (.find f)
  | remove {program : Code Nat} (f : LookFrame) (site : program = f.code clearCode) :
      Follows cfg (.running (.remove f.key) program) (.remove f)

theorem Follows.ended (own : Follows cfg (.running call (.done answer)) c) : c = .idle := by
  cases own with
  | answered => rfl
  | insert f counts start =>
    rcases insert_next cfg counts with ⟨_,_,next⟩ | ⟨-,next⟩ | ⟨_,_,-,next⟩ |
      ⟨_,_,_,_,-,next⟩ <;> cases start.trans next
  | swap f counts pc slot start => cases start
  | find f start =>
    obtain ⟨_,_,next⟩ := look_next f lookCode
    cases start.trans next
  | remove f start =>
    obtain ⟨_,_,next⟩ := look_next f clearCode
    cases start.trans next

/-- A read under no mutex is that of a swap. -/
theorem Follows.reading (own : Follows cfg (.running call (.read cell next)) c) :
    ∃ f n b i, c = .insert f ∧ call = .insert f.key ∧ f.Counts ∧ f.pc = .swap n b ∧
      i < numItemsPerEntry ∧
      .read cell next = swapRead cfg f.fingerprint b i (numMaxKicks - (n + 1)) := by
  cases own with
  | answered ended => cases ended
  | insert f counts start =>
    rcases insert_next cfg counts with ⟨_,_,next⟩ | ⟨-,next⟩ | ⟨_,_,-,next⟩ |
      ⟨_,_,_,_,-,next⟩ <;> cases start.trans next
  | swap f counts pc slot start => exact ⟨f,_,_,_,rfl,rfl,counts,pc,slot,start⟩
  | find f start =>
    obtain ⟨_,_,next⟩ := look_next f lookCode
    cases start.trans next
  | remove f start =>
    obtain ⟨_,_,next⟩ := look_next f clearCode
    cases start.trans next

theorem Follows.writing (own : Follows cfg (.running call (.write cell value next)) c) :
    ∃ f n b i victim, c = .insert f ∧ call = .insert f.key ∧ f.Counts ∧
      f.pc = .write n b i victim ∧
      .write cell value next = swapWrite cfg f.fingerprint b i victim (numMaxKicks - (n + 1)) := by
  cases own with
  | answered ended => cases ended
  | insert f counts start =>
    rcases insert_next cfg counts with ⟨_,_,next⟩ | ⟨-,next⟩ | ⟨_,_,-,next⟩ |
      ⟨n,b,i,victim,pc,next⟩
    · cases start.trans next
    · cases start.trans next
    · cases start.trans next
    · exact ⟨f,n,b,i,victim,rfl,rfl,counts,pc,start.trans next⟩
  | swap f counts pc slot start => cases start
  | find f start =>
    obtain ⟨_,_,next⟩ := look_next f lookCode
    cases start.trans next
  | remove f start =>
    obtain ⟨_,_,next⟩ := look_next f clearCode
    cases start.trans next

theorem Follows.choosing (own : Follows cfg (.running call (.choose next)) c) :
    ∃ f, c = .insert f ∧ call = .insert f.key ∧ f.Counts ∧
      (f.pc = .flag ∧ (next = fun rand =>
          kickCode cfg f.fingerprint (if rand % 2 = 0 then f.hash1 else f.hash2) numMaxKicks) ∨
        ∃ n b, f.pc = .swap n b ∧ (next = fun rand =>
          swapRead cfg f.fingerprint b (rand % numItemsPerEntry) (numMaxKicks - (n + 1)))) := by
  cases own with
  | answered ended => cases ended
  | insert f counts start =>
    rcases insert_next cfg counts with ⟨_,_,next⟩ | ⟨pc,next⟩ | ⟨n,b,pc,next⟩ |
      ⟨_,_,_,_,-,next⟩
    · cases start.trans next
    · cases start.trans next
      exact ⟨f,rfl,rfl,counts,.inl ⟨pc,rfl⟩⟩
    · cases start.trans next
      exact ⟨f,rfl,rfl,counts,.inr ⟨n,b,pc,rfl⟩⟩
    · cases start.trans next
  | swap f counts pc slot start => cases start
  | find f start =>
    obtain ⟨_,_,next⟩ := look_next f lookCode
    cases start.trans next
  | remove f start =>
    obtain ⟨_,_,next⟩ := look_next f clearCode
    cases start.trans next

/-- The answer a thread is about to return. -/
def outcome (tid : Nat) : Locking.Thread Call Nat Slot Bytes Bool → List (Nat × Call × Bool)
  | .running call (.done answer) => [(tid,call,answer)]
  | _ => []

def responses (history : List (Linearization.Event Call Bool)) : List (Nat × Call × Bool) :=
  history.filterMap fun
    | .respond tid call answer => some (tid,call,answer)
    | .invoke _ _ => none

/-- The machine of single sections beside the one that takes its accesses one by one, with
all sections whole. -/
structure Refines (cfg : Config) (a : Threads) (s : System) : Prop where
  table : SequentialFilter.ofCells cfg.tableSize a.cells = s.table
  control : ∀ tid, Follows cfg (a.threads tid) (s.control tid)
  answered : ∀ tid, s.returned.filter (·.1 = tid) =
    outcome tid (a.threads tid) ++ (responses a.history).filter (·.1 = tid)

theorem refines_initial (cfg : Config) :
    Refines cfg (Locking.System.initial fun _ => []) (System.initial cfg) :=
  ⟨rfl,fun _ => .idle,fun _ => rfl⟩

/-- A section that is over has found its slot and done what is to be done there, or has
missed and changed nothing. -/
theorem lockedScan_section {hit : Nat → Code Nat} {miss rest next : Code Nat}
    {cells after : Slot → Bytes} (tableSize : Nat)
    (site : .acquire mutex mode next = lockedScan mode' test b hit miss)
    (inside : Locking.Inside next cells after (.release mutex rest)) :
    match (SequentialFilter.ofCells tableSize cells).scan test b with
    | some i => Locking.Inside (hit i) cells after (.release mutex rest)
    | none => rest = miss ∧ SequentialFilter.ofCells tableSize after =
        SequentialFilter.ofCells tableSize cells := by
  cases site
  have scanned := inside_scan tableSize inside
  cases found : (SequentialFilter.ofCells tableSize cells).scan test b with
  | some i =>
    rw [found] at scanned
    exact scanned
  | none =>
    rw [found] at scanned
    obtain ⟨-,rfl,rfl⟩ := scanned.of_release
    exact ⟨rfl,rfl⟩

variable (tid) in
theorem insert_section {rest next : Code Nat} {cells after : Slot → Bytes} (counts : g.Counts)
    (site : .acquire mutex mode next = g.code cfg)
    (inside : Locking.Inside next cells after (.release mutex rest)) :
    let out := insert cfg .split (SequentialFilter.ofCells cfg.tableSize cells) g 0
    SequentialFilter.ofCells cfg.tableSize after = out.1 ∧
      Follows cfg (.running (.insert g.key) rest) (landed .insert out.2) ∧
      outcome tid (.running (.insert g.key) rest) = answers tid (.insert g.key) out.2 := by
  cases pc : g.pc with
  | first =>
    rw [InsertFrame.code,pc] at site
    have scanned := lockedScan_section cfg.tableSize site inside
    simp only [insert,pc]
    cases found : (SequentialFilter.ofCells cfg.tableSize cells).scan List.isEmpty g.hash1 with
    | some i =>
      rw [found] at scanned
      obtain ⟨rfl,kept⟩ := inside_store cfg.tableSize scanned
      exact ⟨kept,.answered rfl,rfl⟩
    | none =>
      rw [found] at scanned
      obtain ⟨rfl,kept⟩ := scanned
      exact ⟨kept,.insert (g.goto .second) (by intro n kick; cases kick) rfl,rfl⟩
  | second =>
    rw [InsertFrame.code,pc] at site
    have scanned := lockedScan_section cfg.tableSize site inside
    simp only [insert,pc]
    cases found : (SequentialFilter.ofCells cfg.tableSize cells).scan List.isEmpty g.hash2 with
    | some i =>
      rw [found] at scanned
      obtain ⟨rfl,kept⟩ := inside_store cfg.tableSize scanned
      exact ⟨kept,.answered rfl,rfl⟩
    | none =>
      rw [found] at scanned
      obtain ⟨rfl,kept⟩ := scanned
      exact ⟨kept,.insert (g.goto .flag) (by intro n kick; cases kick) rfl,rfl⟩
  | flag =>
    rw [InsertFrame.code,pc] at site
    cases site
  | swap n b =>
    have less := counts n (by rw [pc]; rfl)
    rw [InsertFrame.code,pc] at site
    simp only at site
    rw [show numMaxKicks - n = numMaxKicks - (n + 1) + 1 by omega] at site
    cases site
  | write n b i victim =>
    rw [InsertFrame.code,pc] at site
    cases site
  | place n b =>
    have less := counts n (by rw [pc]; rfl)
    rw [InsertFrame.code,pc] at site
    have scanned := lockedScan_section cfg.tableSize site inside
    simp only [insert,pc]
    cases found : (SequentialFilter.ofCells cfg.tableSize cells).scan List.isEmpty b with
    | some i =>
      rw [found] at scanned
      obtain ⟨rfl,kept⟩ := inside_store cfg.tableSize scanned
      exact ⟨kept,.answered rfl,rfl⟩
    | none =>
      rw [found] at scanned
      obtain ⟨rfl,kept⟩ := scanned
      by_cases again : n + 1 < numMaxKicks
      · simp only [if_pos again]
        refine ⟨kept,.insert (g.goto (.swap (n + 1) b)) ?_ rfl,?_⟩
        · intro m kick
          cases kick
          exact again
        · rw [show numMaxKicks - (n + 1) = numMaxKicks - (n + 1 + 1) + 1 by omega]
          rfl
      · simp only [if_neg again]
        rw [show numMaxKicks - (n + 1) = 0 by omega]
        exact ⟨kept,.answered rfl,rfl⟩

variable (tid) in
theorem find_section {f : LookFrame} {rest next : Code Nat} {cells after : Slot → Bytes}
    (site : .acquire mutex mode next = f.code lookCode)
    (inside : Locking.Inside next cells after (.release mutex rest)) :
    let out := find (SequentialFilter.ofCells cfg.tableSize cells) f
    SequentialFilter.ofCells cfg.tableSize after = out.1 ∧
      Follows cfg (.running (.find f.key) rest) (landed .find out.2) ∧
      outcome tid (.running (.find f.key) rest) = answers tid (.find f.key) out.2 := by
  obtain ⟨key,fingerprint,hash1,hash2,second⟩ := f
  cases second with
  | true =>
    have scanned := lockedScan_section cfg.tableSize site inside
    cases found : (SequentialFilter.ofCells cfg.tableSize cells).scan (· = fingerprint) hash2 with
    | some i =>
      rw [found] at scanned
      obtain ⟨rfl,kept⟩ := inside_leave cfg.tableSize scanned
      simp only [find,LookFrame.bucket,if_true,found]
      exact ⟨kept,.answered rfl,rfl⟩
    | none =>
      rw [found] at scanned
      obtain ⟨rfl,kept⟩ := scanned
      simp only [find,LookFrame.bucket,if_true,found]
      exact ⟨kept,.answered rfl,rfl⟩
  | false =>
    have scanned := lockedScan_section cfg.tableSize site inside
    cases found : (SequentialFilter.ofCells cfg.tableSize cells).scan (· = fingerprint) hash1 with
    | some i =>
      rw [found] at scanned
      obtain ⟨rfl,kept⟩ := inside_leave cfg.tableSize scanned
      simp only [find,LookFrame.bucket,Bool.false_eq_true,if_false,found]
      exact ⟨kept,.answered rfl,rfl⟩
    | none =>
      rw [found] at scanned
      obtain ⟨rfl,kept⟩ := scanned
      simp only [find,LookFrame.bucket,Bool.false_eq_true,if_false,found]
      exact ⟨kept,.find ⟨key,fingerprint,hash1,hash2,true⟩ rfl,rfl⟩

variable (tid) in
theorem remove_section {f : LookFrame} {rest next : Code Nat} {cells after : Slot → Bytes}
    (site : .acquire mutex mode next = f.code clearCode)
    (inside : Locking.Inside next cells after (.release mutex rest)) :
    let out := remove (SequentialFilter.ofCells cfg.tableSize cells) f
    SequentialFilter.ofCells cfg.tableSize after = out.1 ∧
      Follows cfg (.running (.remove f.key) rest) (landed .remove out.2) ∧
      outcome tid (.running (.remove f.key) rest) = answers tid (.remove f.key) out.2 := by
  obtain ⟨key,fingerprint,hash1,hash2,second⟩ := f
  cases second with
  | true =>
    have scanned := lockedScan_section cfg.tableSize site inside
    cases found : (SequentialFilter.ofCells cfg.tableSize cells).scan
        (fun str => str.length ≠ 0 ∧ str = fingerprint) hash2 with
    | some i =>
      rw [found] at scanned
      obtain ⟨rfl,kept⟩ := inside_store cfg.tableSize scanned
      simp only [remove,LookFrame.bucket,if_true,found]
      exact ⟨kept,.answered rfl,rfl⟩
    | none =>
      rw [found] at scanned
      obtain ⟨rfl,kept⟩ := scanned
      simp only [remove,LookFrame.bucket,if_true,found]
      exact ⟨kept,.answered rfl,rfl⟩
  | false =>
    have scanned := lockedScan_section cfg.tableSize site inside
    cases found : (SequentialFilter.ofCells cfg.tableSize cells).scan
        (fun str => str.length ≠ 0 ∧ str = fingerprint) hash1 with
    | some i =>
      rw [found] at scanned
      obtain ⟨rfl,kept⟩ := inside_store cfg.tableSize scanned
      simp only [remove,LookFrame.bucket,Bool.false_eq_true,if_false,found]
      exact ⟨kept,.answered rfl,rfl⟩
    | none =>
      rw [found] at scanned
      obtain ⟨rfl,kept⟩ := scanned
      simp only [remove,LookFrame.bucket,Bool.false_eq_true,if_false,found]
      exact ⟨kept,.remove ⟨key,fingerprint,hash1,hash2,true⟩ rfl,rfl⟩

theorem Refines.move (refines : Refines cfg a s) {cells : Slot → Bytes}
    {thread : Locking.Thread Call Nat Slot Bytes Bool}
    {history : List (Linearization.Event Call Bool)}
    (table : SequentialFilter.ofCells cfg.tableSize cells = t.table)
    (follows : Follows cfg thread (t.control tid))
    (others : ∀ other, other ≠ tid → t.control other = s.control other)
    (answered : t.returned.filter (·.1 = tid) =
      outcome tid thread ++ (responses history).filter (·.1 = tid))
    (rest : ∀ other, other ≠ tid → t.returned.filter (·.1 = other) =
        s.returned.filter (·.1 = other) ∧
      (responses history).filter (·.1 = other) = (responses a.history).filter (·.1 = other)) :
    Refines cfg ⟨cells,a.locks,a.become tid thread,history⟩ t := by
  refine ⟨table,fun mover => ?_,fun mover => ?_⟩
  · by_cases same : mover = tid
    · subst mover
      simpa only [Locking.become_own] using follows
    · simpa only [Locking.become_other a _ same,others mover same] using refines.control mover
  · by_cases same : mover = tid
    · subst mover
      simpa only [Locking.become_own] using answered
    · obtain ⟨returned,responded⟩ := rest mover same
      simpa only [Locking.become_other a _ same,returned,responded] using refines.answered mover

variable (tid) in
theorem Refines.settle (refines : Refines cfg a s) (call : Call) (wrap : Frame → Control)
    (out : Table × (Frame ⊕ Bool)) {cells : Slot → Bytes}
    {thread : Locking.Thread Call Nat Slot Bytes Bool}
    (table : SequentialFilter.ofCells cfg.tableSize cells = out.1)
    (follows : Follows cfg thread (landed wrap out.2))
    (answered : outcome tid thread = answers tid call out.2 ++ outcome tid (a.threads tid)) :
    Refines cfg ⟨cells,a.locks,a.become tid thread,a.history⟩ (s.settle tid call wrap out) := by
  have own : (answers tid call out.2).filter (·.1 = tid) = answers tid call out.2 := by
    cases out.2 <;> simp [answers]
  rw [settle_eq]
  refine refines.move table ?_ (fun other away => goto_other s _ away) ?_ fun other away => ⟨?_,rfl⟩
  · rw [goto_own]
    exact follows
  · rw [List.filter_append,own,refines.answered,answered,List.append_assoc]
  · have none : (answers tid call out.2).filter (·.1 = other) = [] := by
      cases out.2 <;> simp [answers,Ne.symm away]
    rw [List.filter_append,none,List.nil_append]

/-- A step that the other machine does not see. -/
theorem Refines.stay (refines : Refines cfg a s)
    {thread : Locking.Thread Call Nat Slot Bytes Bool} (follows : Follows cfg thread (s.control tid))
    (answered : outcome tid thread = outcome tid (a.threads tid)) :
    Refines cfg ⟨a.cells,a.locks,a.become tid thread,a.history⟩ s :=
  refines.move refines.table follows (fun _ _ => rfl) (answered ▸ refines.answered tid)
    fun _ _ => ⟨rfl,rfl⟩

theorem enter_code (cfg : Config) (call : Call) :
    Follows cfg (.running call (code cfg call)) (invoke cfg call) := by
  cases call with
  | insert key => exact .insert (.enter cfg key) (by intro n kick; cases kick) rfl
  | find key => exact .find (.enter cfg key) rfl
  | remove key => exact .remove (.enter cfg key) rfl

theorem enter_outcome (cfg : Config) (call : Call) :
    outcome tid (.running call (code cfg call)) = [] := by
  cases call <;> rfl

/-- The other machine moves along with a step to `b`, or stands still. -/
def Matched (cfg : Config) (tid : Nat) (s : System) (b : Threads) : Prop :=
  ∃ t, Refines cfg b t ∧ (t = s ∨ ∃ action, step cfg .split s tid action = some t)

section
variable (refines : Refines cfg a s)
include refines

theorem matched_invoke (idle : a.threads tid = .idle) (call : Call) :
    Matched cfg tid s ⟨a.cells,a.locks,a.become tid (.running call (code cfg call)),
      .invoke tid call :: a.history⟩ := by
  have own := refines.control tid
  rw [idle] at own
  cases here : s.control tid <;> rw [here] at own <;> cases own
  refine ⟨_,?_,.inr ⟨.invoke call,step_invoke here call⟩⟩
  refine refines.move refines.table ?_ (fun other away => goto_other s _ away) ?_
    fun _ _ => ⟨rfl,rfl⟩
  · rw [goto_own]
    exact enter_code cfg call
  · have before := refines.answered tid
    rw [idle] at before
    rw [enter_outcome]
    exact before

theorem matched_done (site : a.threads tid = .running call (.done answer)) :
    Matched cfg tid s
      ⟨a.cells,a.locks,a.become tid .idle,.respond tid call answer :: a.history⟩ := by
  have own := refines.control tid
  rw [site] at own
  refine ⟨s,?_,.inl rfl⟩
  refine refines.move refines.table ?_ (fun _ _ => rfl) ?_ fun other away => ⟨rfl,?_⟩
  · rw [own.ended]
    exact .idle
  · have before := refines.answered tid
    rw [site] at before
    simpa [outcome,responses] using before
  · simp [responses,Ne.symm away]

/-- The read of the swap in line 72, which no mutex guards. -/
theorem matched_read (site : a.threads tid = .running call (.read cell next)) :
    Matched cfg tid s
      ⟨a.cells,a.locks,a.become tid (.running call (next (a.cells cell))),a.history⟩ := by
  have own := refines.control tid
  rw [site] at own
  obtain ⟨f,n,b,i,here,rfl,counts,pc,slot,start⟩ := own.reading
  cases start
  have less := counts n (by rw [pc]; rfl)
  have value : a.cells (b,i) = s.table.hashTable b (i % numItemsPerEntry) := by
    rw [← refines.table,Nat.mod_eq_of_lt slot]
    rfl
  refine ⟨_,refines.settle tid (.insert f.key) .insert (FineGrained.insert cfg .split s.table f i)
    ?_ ?_ ?_,.inr ⟨.run i,by simp only [step,here]⟩⟩
  · simp only [insert,pc]
    exact refines.table
  · simp only [insert,pc,value]
    refine .insert (f.goto (.write n b (i % numItemsPerEntry) _)) ?_ ?_
    · intro m kick
      cases kick
      exact less
    · rw [Nat.mod_eq_of_lt slot]
      rfl
  · rw [site]
    simp only [insert,pc]
    rfl

theorem matched_write (site : a.threads tid = .running call (.write cell value next)) :
    Matched cfg tid s ⟨Function.update a.cells cell value,a.locks,
      a.become tid (.running call next),a.history⟩ := by
  have own := refines.control tid
  rw [site] at own
  obtain ⟨f,n,b,i,victim,here,rfl,counts,pc,start⟩ := own.writing
  cases start
  have less := counts n (by rw [pc]; rfl)
  refine ⟨_,refines.settle tid (.insert f.key) .insert (FineGrained.insert cfg .split s.table f 0)
    ?_ ?_ ?_,.inr ⟨.run 0,by simp only [step,here]⟩⟩
  · simp only [insert,pc,InsertFrame.swapped]
    rw [ofCells_update,refines.table]
  · simp only [insert,pc,InsertFrame.swapped]
    refine .insert ⟨f.key,victim,f.hash1,f.hash2,
      .place n (getNextHashIndex cfg.tableSize b victim)⟩ ?_ rfl
    intro m kick
    cases kick
    exact less
  · rw [site]
    simp only [insert,pc,InsertFrame.swapped]
    rfl

/-- The other machine chooses a slot only when it reads it. -/
theorem matched_choose (site : a.threads tid = .running call (.choose next)) (choice : Nat) :
    Matched cfg tid s
      ⟨a.cells,a.locks,a.become tid (.running call (next choice)),a.history⟩ := by
  have own := refines.control tid
  rw [site] at own
  obtain ⟨f,here,rfl,counts,⟨pc,rfl⟩ | ⟨n,b,pc,rfl⟩⟩ := own.choosing
  · refine ⟨_,refines.settle tid (.insert f.key) .insert (FineGrained.insert cfg .split s.table f choice)
      ?_ ?_ ?_,.inr ⟨.run choice,by simp only [step,here]⟩⟩
    · simp only [insert,pc]
      exact refines.table
    · simp only [insert,pc]
      exact .insert (f.goto (.swap 0 (if choice % 2 = 0 then f.hash1 else f.hash2)))
        (by intro n kick; cases kick; decide) rfl
    · rw [site]
      simp only [insert,pc]
      rfl
  · refine ⟨s,refines.stay ?_ ?_,.inl rfl⟩
    · rw [here]
      exact .swap f counts pc (Nat.mod_lt _ (by decide)) rfl
    · rw [site]
      rfl

theorem matched_whole (site : a.threads tid = .running call (.acquire mutex mode next))
    (inside : Locking.Inside next a.cells after (.release mutex rest)) :
    Matched cfg tid s ⟨after,a.locks,a.become tid (.running call rest),a.history⟩ := by
  have own := refines.control tid
  rw [site] at own
  cases here : s.control tid <;> rw [here] at own <;> cases own
  · rename_i ended
    cases ended
  · rename_i f counts start
    obtain ⟨table,follows,answered⟩ := insert_section tid counts start inside
    rw [refines.table] at table follows answered
    refine ⟨_,refines.settle tid (.insert f.key) .insert _ table follows ?_,
      .inr ⟨.run 0,by simp only [step,here]⟩⟩
    rw [answered,site]
    exact (List.append_nil _).symm
  · rename_i start
    cases start
  · rename_i f start
    obtain ⟨table,follows,answered⟩ := find_section tid start inside
    rw [refines.table] at table follows answered
    refine ⟨_,refines.settle tid (.find f.key) .find _ table follows ?_,
      .inr ⟨.run 0,by simp only [step,here]⟩⟩
    rw [answered,site]
    exact (List.append_nil _).symm
  · rename_i f start
    obtain ⟨table,follows,answered⟩ := remove_section tid start inside
    rw [refines.table] at table follows answered
    refine ⟨_,refines.settle tid (.remove f.key) .remove _ table follows ?_,
      .inr ⟨.run 0,by simp only [step,here]⟩⟩
    rw [answered,site]
    exact (List.append_nil _).symm

/-- Each step of the one machine is a step of the other, or none. -/
theorem refines_step {b : Threads} (stepped : Locking.AtomicStep (code cfg) a tid b) :
    ∃ t, Refines cfg b t ∧ (t = s ∨ ∃ action, step cfg .split s tid action = some t) := by
  cases stepped with
  | invoke idle call => exact matched_invoke refines idle call
  | done site => exact matched_done refines site
  | read site => exact matched_read refines site
  | write site => exact matched_write refines site
  | choose site choice => exact matched_choose refines site choice
  | whole site inside => exact matched_whole refines site inside

end

theorem run_refines {condition : Nat → Threads → Prop}
    {condition' : Nat → Action → System → Prop}
    (meets : ∀ tid a s action, Refines cfg a s → condition tid a → condition' tid action s)
    (run : Locking.AtomicRun (code cfg) condition (.initial fun _ => []) a) :
    ∃ s, Run cfg .split condition' (System.initial cfg) s ∧ Refines cfg a s := by
  refine Transition.run_invariant (fun a =>
    ∃ s, Run cfg .split condition' (System.initial cfg) s ∧ Refines cfg a s) ?_
    ⟨_,.refl,refines_initial cfg⟩ run
  rintro a b ⟨s,past,refines⟩ ⟨tid,allowed,stepped⟩
  obtain ⟨t,after,rfl | ⟨action,moved⟩⟩ := refines_step refines stepped
  · exact ⟨t,past,after⟩
  · exact ⟨t,.tail past ⟨tid,action,meets tid a s action refines allowed,moved⟩,after⟩

/-- What the machine of single sections says of the interleaved accesses: it has given the
answers, in each thread's order; and the table, while no mutex is held. -/
structure Abstracts (cfg : Config) (s : Threads) (t : System) : Prop where
  answered : ∀ tid, (responses s.history).filter (·.1 = tid) <:+ t.returned.filter (·.1 = tid)
  idle : ∀ tid, s.threads tid = .idle → t.control tid = .idle ∧
    t.returned.filter (·.1 = tid) = (responses s.history).filter (·.1 = tid)
  table : (∀ mutex, s.locks mutex = []) →
    SequentialFilter.ofCells cfg.tableSize s.cells = t.table

theorem abstracts_of {s : Threads} {t : System} (sound : Locking.Sound slotMutex (Swaps cfg) s)
    (related : Locking.Related slotMutex (Swaps cfg) s a) (refines : Refines cfg a t) :
    Abstracts cfg s t := by
  refine ⟨fun tid => ?_,fun tid idle => ?_,fun free => ?_⟩
  · rw [refines.answered,related.history]
    exact List.suffix_append _ _
  · have own := refines.control tid
    have answered := refines.answered tid
    rw [related.free tid (sound.idle_free idle),idle] at own answered
    rw [related.history] at answered
    cases here : t.control tid <;> rw [here] at own <;> cases own
    exact ⟨rfl,answered⟩
  · rw [← refines.table]
    congr 1
    funext slot
    refine (related.cells slot fun holder member => ?_).symm
    rw [free] at member
    cases member

/-- A run in which no access meets a section of another thread, unless both only read, is a
run of the machine whose sections are single steps. -/
theorem race_free_refines {s : Threads}
    (run : Locking.Run (code cfg) (Locking.RaceFree slotMutex) (.initial fun _ => []) s) :
    ∃ t, Run cfg .split (fun _ _ _ => True) (System.initial cfg) t ∧ Abstracts cfg s t := by
  have sections : ∃ a, Locking.AtomicRun (code cfg) (fun _ _ => True) (.initial fun _ => []) a ∧
      Locking.Related slotMutex (Swaps cfg) s a :=
    Locking.run_related code_disciplined (fun _ _ _ free => free) (fun _ _ _ _ _ _ _ => trivial) run
  obtain ⟨a,whole,related⟩ := sections
  obtain ⟨t,steps,refines⟩ := run_refines (fun _ _ _ _ _ _ => trivial) whole
  exact ⟨t,steps,abstracts_of (Locking.run_sound code_disciplined run) related refines⟩

/-- At the write of a swap the slot still has the string that was read from it. -/
def Undisturbed (cfg : Config) (tid : Nat) (s : Threads) : Prop :=
  ∀ call fingerprint b i victim left,
    s.threads tid = .running call (swapWrite cfg fingerprint b i victim left) → s.cells (b,i) = victim

/-- The next access meets no section of another thread and writes over no other string than
the one it has read. -/
def Orderly (cfg : Config) (tid : Nat) (s : Threads) : Prop :=
  Locking.RaceFree slotMutex tid s ∧ Undisturbed cfg tid s

/-- A swap that finds its slot as it was finds it so in the machine of whole sections. -/
theorem undisturbed_related {s : Threads} (related : Locking.Related slotMutex (Swaps cfg) s a)
    (orderly : Orderly cfg tid s)
    (bare : (a.threads tid).access? = none ∨
      s.Holds tid none ∧ a.threads tid = s.threads tid) :
    Undisturbed cfg tid a := by
  intro call fingerprint b i victim left site
  rcases bare with quiet | ⟨holds,same⟩
  · rw [site] at quiet
    cases quiet
  · have site' := same.symm.trans site
    refine (related.cells (b,i) fun holder member => ?_).trans
      (orderly.2 call fingerprint b i victim left site')
    have away : holder.1 ≠ tid := by
      rintro rfl
      cases (holds _ holder.2).mp member
    cases (orderly.1 (b,i) true (by rw [site']; rfl) holder member away).1

theorem intact_of {table : Table} {pc : InsertPc}
    (write : ∀ n b i victim, pc = .write n b i victim → table.hashTable b i = victim) :
    pc.Intact table := by
  cases pc with
  | write n b i victim => exact write n b i victim rfl
  | _ => trivial

theorem undisturbed_intact (refines : Refines cfg a s) (undisturbed : Undisturbed cfg tid a) :
    (s.control tid).Intact s.table := by
  have own := refines.control tid
  cases here : s.control tid with
  | insert f =>
    rw [here] at own
    refine intact_of fun n b i victim pc => ?_
    cases site : a.threads tid with
    | idle =>
      rw [site] at own
      cases own
    | running call program =>
      rw [site] at own
      cases own with
      | insert f counts start =>
        rw [InsertFrame.code,pc] at start
        rw [start] at site
        rw [← refines.table]
        exact undisturbed _ _ b i victim _ site
      | swap f counts pc' =>
        rw [pc] at pc'
        cases pc'
  | _ => trivial

theorem quiet_balance {κ : Type*} {label : Nat → Bytes → κ} (hops : cfg.Hops label)
    (run : Run cfg .split (fun tid _ s => (s.control tid).Intact s.table) (System.initial cfg) s)
    (ended : ∀ tid, s.control tid = .idle) (accepted : s.Accepted) :
    labels cfg.tableSize label s.table.held + s.taken cfg label = s.put cfg label := by
  have balances := run_balanced hops run accepted 0 fun tid _ => ended tid
  simpa [System.Balances,System.carried,System.owed,Bag.contents] using balances

theorem perm_of_threads {l m : List (Nat × Call × Bool)}
    (same : ∀ tid, l.filter (·.1 = tid) = m.filter (·.1 = tid)) : l.Perm m := by
  rw [List.perm_iff_count]
  intro x
  have own := congrArg (List.count x) (same x.1)
  rwa [List.count_filter (by simp),List.count_filter (by simp)] at own

/-- When all calls of an orderly run are over the slots have the fingerprints of the keys put
in and not taken out; for a capacity that is a power of two, their classes. -/
theorem orderly_conserves {s : Threads}
    (run : Locking.Run (code cfg) (Orderly cfg) (.initial fun _ => []) s)
    (ended : ∀ tid, s.threads tid = .idle)
    (accepted : ∀ x ∈ responses s.history, Accepts x.2) :
    let events := (responses s.history).map Prod.snd
    let table := SequentialFilter.ofCells cfg.tableSize s.cells
    table.fingerprints + (Bag.removed events).map cfg.md5Fingerprint =
        (Bag.inserted events).map cfg.md5Fingerprint ∧
      ∀ e, cfg.tableSize = 2 ^ e →
        table.bag + (Bag.removed events).map (keyClass cfg.tableSize cfg.md5Fingerprint) =
          (Bag.inserted events).map (keyClass cfg.tableSize cfg.md5Fingerprint) := by
  have sections : ∃ a, Locking.AtomicRun (code cfg) (Undisturbed cfg) (.initial fun _ => []) a ∧
      Locking.Related slotMutex (Swaps cfg) s a :=
    Locking.run_related code_disciplined (fun _ _ _ orderly => orderly.1)
      (fun _ _ _ _ related orderly bare => undisturbed_related related orderly bare) run
  obtain ⟨a,whole,related⟩ := sections
  have machine : ∃ t, Run cfg .split (fun tid _ s => (s.control tid).Intact s.table)
      (System.initial cfg) t ∧ Refines cfg a t :=
    run_refines (fun _ _ _ _ refines undisturbed => undisturbed_intact refines undisturbed) whole
  obtain ⟨t,steps,refines⟩ := machine
  have sound := Locking.run_sound code_disciplined run
  have abstracts := abstracts_of sound related refines
  have same : t.returned.Perm (responses s.history) :=
    perm_of_threads fun tid => (abstracts.idle tid (ended tid)).2
  have table := abstracts.table (sound.unlocked ended)
  have accepted' : t.Accepted := fun x member => accepted x (same.mem_iff.mp member)
  have put : Bag.inserted t.events = Bag.inserted ((responses s.history).map Prod.snd) :=
    Multiset.coe_eq_coe.mpr ((same.map Prod.snd).filterMap Bag.putBy)
  have taken : Bag.removed t.events = Bag.removed ((responses s.history).map Prod.snd) :=
    Multiset.coe_eq_coe.mpr ((same.map Prod.snd).filterMap Bag.takenBy)
  have balance {κ : Type} (label : Nat → Bytes → κ) (hops : cfg.Hops label) :=
    quiet_balance hops steps (fun tid => (abstracts.idle tid (ended tid)).1) accepted'
  simp only [System.taken,System.put,put,taken,← table] at balance
  refine ⟨balance (fun _ str => str) fun _ _ _ => rfl,fun e power => ?_⟩
  exact balance (classAt cfg.tableSize) fun b inside str => classAt_alternate power inside str

/-- The string that the scan after a swap is about to store. -/
def inHand : Code Nat → Option Bytes
  | .acquire _ _ (.read _ next) =>
    match next [] with
    | .write _ victim _ => some victim
    | _ => none
  | _ => none

/-- `Undisturbed` as far as the programs show it. -/
def Steady (tid : Nat) (s : Threads) : Prop :=
  match s.threads tid with
  | .running _ (.write cell _ next) => ∀ victim ∈ inHand next, s.cells cell = victim
  | _ => True

instance (tid : Nat) (s : Threads) : Decidable (Steady tid s) :=
  match site : s.threads tid with
  | .running _ (.write cell _ next) =>
    decidable_of_iff (∀ victim ∈ inHand next, s.cells cell = victim) (by simp only [Steady,site])
  | .idle | .running _ (.done _) | .running _ (.read _ _) | .running _ (.choose _)
  | .running _ (.acquire _ _ _) | .running _ (.release _ _) => .isTrue (by simp only [Steady,site])

theorem steady_undisturbed {s : Threads} (steady : Steady tid s) : Undisturbed cfg tid s := by
  intro call fingerprint b i victim left site
  unfold Steady at steady
  rw [site] at steady
  exact steady victim rfl

/-- Thread 1 kicks an `a` out of bucket 0 while thread 2 searches there for one and then
removes one. -/
def orderlySchedule : List (Nat × Locking.Action Call) :=
  calls 0 (.insert keyA) 5 ++ calls 0 (.insert keyA) 6 ++ calls 0 (.insert keyA) 7 ++
    calls 0 (.insert keyA) 8 ++ calls 1 (.insert keyF) 14 ++ calls 2 (.find keyA) 1 ++
    Locking.runs 1 1 ++ Locking.runs 2 3 ++ Locking.runs 1 6 ++ calls 2 (.remove keyA) 6

def orderlyState : Threads :=
  Locking.endState (code sampleConfig) (fun tid s => Locking.RaceFree slotMutex tid s ∧ Steady tid s)
    (fun _ => []) orderlySchedule

theorem orderly_run : Locking.Run (code sampleConfig) (Orderly sampleConfig)
    (.initial fun _ => []) orderlyState := by
  have run : Locking.Run (code sampleConfig)
      (fun tid s => Locking.RaceFree slotMutex tid s ∧ Steady tid s) (.initial fun _ => [])
      orderlyState := Locking.endState_run orderlySchedule (by decide +kernel)
  refine Relation.ReflTransGen.mono ?_ _ _ run
  rintro s t ⟨tid,action,⟨free,steady⟩,moved⟩
  exact ⟨tid,action,⟨free,steady_undisturbed steady⟩,moved⟩

theorem orderly_ended : ∀ tid, orderlyState.threads tid = .idle :=
  Locking.endState_idle (n := 3) orderlySchedule rfl (by decide +kernel) (by decide +kernel)

theorem orderly_refines : ∃ t, Run sampleConfig .split (fun _ _ _ => True)
    (System.initial sampleConfig) t ∧ Abstracts sampleConfig orderlyState t := by
  refine race_free_refines (Relation.ReflTransGen.mono ?_ _ _ orderly_run)
  rintro s t ⟨tid,action,⟨free,-⟩,moved⟩
  exact ⟨tid,action,free,moved⟩

theorem orderly_fingerprints :
    responses orderlyState.history = [(2,.remove keyA,true),(1,.insert keyF,true),
      (2,.find keyA,true),(0,.insert keyA,true),(0,.insert keyA,true),(0,.insert keyA,true),
      (0,.insert keyA,true)] ∧
    let events := (responses orderlyState.history).map Prod.snd
    let table := SequentialFilter.ofCells sampleConfig.tableSize orderlyState.cells
    table.fingerprints + (Bag.removed events).map sampleMd5 =
        (Bag.inserted events).map sampleMd5 ∧
      ∀ e, sampleConfig.tableSize = 2 ^ e →
        table.bag + (Bag.removed events).map (keyClass sampleConfig.tableSize sampleMd5) =
          (Bag.inserted events).map (keyClass sampleConfig.tableSize sampleMd5) :=
  ⟨by decide +kernel,orderly_conserves orderly_run orderly_ended (by decide +kernel)⟩

end CuckooFilter.FineGrained
