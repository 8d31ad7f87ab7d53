import CuckooFilter.Common
import CuckooFilter.Pointer

/-! The lock-free filter as a machine. Every read of a table slot, every
compare-and-swap and every read of an entry's `str` is one step of one thread;
a frame holds the locals that survive to the next step. `verbose` output is left
out, and nothing frees an entry while the three operations run. -/
namespace CuckooFilter.LockFree

/-- The fields no operation changes. The constructors abort on a capacity that is
not positive. -/
structure Config where
  tableSize : Nat
  positive : 0 < tableSize
  md5Fingerprint : Bytes → Bytes

inductive Call where
  | insert (key : Bytes)
  | find (key : Bytes)
  | remove (key : Bytes)
  deriving DecidableEq, Repr

inductive Response where
  | truth (value : Bool)
  | location (index : Nat)
  deriving DecidableEq, Repr

/-- An entry that moved between a thread and a slot. -/
structure Transfer where
  tid : Nat
  key : Bytes
  entry : Address
  bucket : Nat
  slot : Nat
  deriving DecidableEq, Repr

/-- The filter's fields and the heap of `HashEntry` objects. The last four fields
are history: no step reads them. `raises` counts the compare-and-swaps that put a
counter above both of the slots it was computed from. -/
structure Memory where
  hashTable : Nat → Nat → TablePointer
  hazardPtrs : Nat → Nat → Address
  retiredPtrs : Nat → List Address
  heap : Address → Option Bytes
  aborted : Bool
  stored : List Transfer
  removed : List Transfer
  returned : List (Nat × Call × Response)
  raises : Nat

def Memory.initial : Memory :=
  ⟨fun _ _ => 0,fun _ _ => 0,fun _ => [],fun _ => none,false,[],[],[],0⟩

/-- The `str` of an entry; every address a thread follows is allocated. -/
def Memory.str (m : Memory) (entry : Address) : Bytes := (m.heap entry).getD []

def Memory.abort (m : Memory) : Memory := { m with aborted := true }

def Memory.write (m : Memory) (bucket slot : Nat) (word : TablePointer) : Memory :=
  { m with hashTable := fun i j => if i = bucket ∧ j = slot then word else m.hashTable i j }

/-- `__sync_bool_compare_and_swap` -/
def Memory.compareAndSwap (m : Memory) (bucket slot : Nat) (expected word : TablePointer) :
    Memory × Bool :=
  if m.hashTable bucket slot = expected then (m.write bucket slot word,true) else (m,false)

def Memory.markHazard (m : Memory) (realPointer : Address) (index tid : Nat) : Memory :=
  { m with hazardPtrs := fun i j => if i = tid ∧ j = index then realPointer else m.hazardPtrs i j }

def Memory.clearHazard (m : Memory) (tid : Nat) : Memory :=
  (m.markHazard 0 0 tid).markHazard 0 1 tid

def Memory.retireKey (m : Memory) (pointer : TablePointer) (tid : Nat) : Memory :=
  { m with retiredPtrs := fun i =>
      if i = tid then m.retiredPtrs i ++ [getRealPointer pointer] else m.retiredPtrs i }

def Memory.respond (m : Memory) (tid : Nat) (call : Call) (response : Response) : Memory :=
  { m with returned := (tid,call,response) :: m.returned }

def Memory.recordStored (m : Memory) (transfer : Transfer) : Memory :=
  { m with stored := transfer :: m.stored }

def Memory.recordRemoved (m : Memory) (transfer : Transfer) : Memory :=
  { m with removed := transfer :: m.removed }

def Memory.recordRaise (m : Memory) : Memory := { m with raises := m.raises + 1 }

/-- `operator new`: an address that fits the pointer field and was never in use. -/
def Memory.Fresh (m : Memory) (address : Address) : Prop :=
  address ≠ 0 ∧ Fits address ∧ m.heap address = none

instance (m : Memory) (address : Address) : Decidable (m.Fresh address) :=
  inferInstanceAs (Decidable (_ ∧ _ ∧ _))

def Memory.allocate (m : Memory) (address : Address) (str : Bytes) : Memory :=
  { m with heap := fun i => if i = address then some str else m.heap i }

/-- A function either goes on in its frame or returns to its caller. -/
inductive Flow (Frame Result : Type) where
  | running (frame : Frame)
  | returned (result : Result)

inductive HelpPc where
  | readSource
  | markCas (ptr1 : TablePointer)
  | rereadSource
  | deref (ptr1 : TablePointer)
  | readDest (ptr1 : TablePointer) (newHash : Nat)
  | recheckSource (ptr1 ptr2 : TablePointer) (newHash : Nat)
  | copyCas (ptr1 ptr2 : TablePointer) (newHash : Nat)
  | clearCas (ptr1 : TablePointer) (newHash : Nat)
  | sameCas (ptr1 : TablePointer) (newHash : Nat)
  | failCas (ptr1 : TablePointer) (newHash : Nat)
  deriving DecidableEq, Repr

structure HelpFrame where
  tableIdx : Nat
  slotIdx : Nat
  initiator : Bool
  pc : HelpPc
  deriving DecidableEq, Repr

def HelpFrame.goto (f : HelpFrame) (pc : HelpPc) : HelpFrame := { f with pc := pc }

/-- The call itself clears both hazard cells before the first read. -/
def HelpFrame.enter (tableIdx slotIdx : Nat) (initiator : Bool) : HelpFrame :=
  ⟨tableIdx,slotIdx,initiator,.readSource⟩

/-- What follows a read of the source slot: the inner loop's test, then line 384. -/
def HelpFrame.loaded (f : HelpFrame) (ptr1 : TablePointer) : Flow HelpFrame Unit :=
  if getMarked ptr1 then .running (f.goto (.deref ptr1))
  else if f.initiator ∧ getRealPointer ptr1 ≠ 0 then .running (f.goto (.markCas ptr1))
  else .returned ()

/-- Lines 413 to 425, reached with an occupied destination or a lost copy. -/
def HelpFrame.occupied (f : HelpFrame) (ptr1 : TablePointer) (realPtr2 : Address)
    (newHash : Nat) : HelpFrame :=
  if getRealPointer ptr1 = realPtr2 then f.goto (.sameCas ptr1 newHash)
  else f.goto (.failCas ptr1 newHash)

/-- `n_count` -/
def raisedCounter (ptr1 ptr2 : TablePointer) : Nat :=
  if getCounter ptr1 > getCounter ptr2 then getCounter ptr1 + 1 else getCounter ptr2 + 1

def helpRelocate (cfg : Config) (tid : Nat) (m : Memory) (f : HelpFrame) :
    Memory × Flow HelpFrame Unit :=
  match f.pc with
  | .readSource | .rereadSource =>
    let ptr1 := m.hashTable f.tableIdx f.slotIdx
    (m.markHazard (getRealPointer ptr1) 0 tid,f.loaded ptr1)
  | .markCas ptr1 =>
    ((m.compareAndSwap f.tableIdx f.slotIdx ptr1 (getNewMark ptr1 true)).1,
      .running (f.goto .rereadSource))
  | .deref ptr1 =>
    let newHash := getNextHashIndex cfg.tableSize f.tableIdx (m.str (getRealPointer ptr1))
    (m,.running (f.goto (.readDest ptr1 newHash)))
  | .readDest ptr1 newHash =>
    let ptr2 := m.hashTable newHash f.slotIdx
    (m.markHazard (getRealPointer ptr2) 1 tid,
      .running (if getRealPointer ptr2 = 0 then f.goto (.recheckSource ptr1 ptr2 newHash)
        else f.occupied ptr1 (getRealPointer ptr2) newHash))
  | .recheckSource ptr1 ptr2 newHash =>
    (m,.running (if ptr1 ≠ m.hashTable f.tableIdx f.slotIdx then f.goto .readSource
      else f.goto (.copyCas ptr1 ptr2 newHash)))
  | .copyCas ptr1 ptr2 newHash =>
    match createPointer (raisedCounter ptr1 ptr2) (getRealPointer ptr1) false with
    | none => (m.abort,.running f)
    | some word =>
      match m.compareAndSwap newHash f.slotIdx ptr2 word with
      | (swapped,true) => (swapped.recordRaise,.running (f.goto (.clearCas ptr1 newHash)))
      | (kept,false) => (kept,.running (f.occupied ptr1 (getRealPointer ptr2) newHash))
  | .clearCas ptr1 _ =>
    match createPointer (getCounter ptr1 + 1) 0 false with
    | none => (m.abort,.running f)
    | some word => ((m.compareAndSwap f.tableIdx f.slotIdx ptr1 word).1,.returned ())
  | .sameCas ptr1 newHash =>
    match createPointer (getCounter ptr1 + 1) 0 false with
    | none => (m.abort,.running f)
    | some word =>
      match m.compareAndSwap newHash f.slotIdx ptr1 word with
      | (swapped,true) => (swapped.recordRaise,.returned ())
      | (kept,false) => (kept,.returned ())
  | .failCas ptr1 newHash =>
    match createPointer (getCounter ptr1 + 1) (getRealPointer ptr1) true with
    | none => (m.abort,.running f)
    | some word =>
      match m.compareAndSwap newHash f.slotIdx ptr1 word with
      | (swapped,true) => (swapped.recordRaise,.returned ())
      | (kept,false) => (kept,.returned ())

def checkCounter (ts1 ts2 ts1x ts2x : Int) : Bool :=
  let cond1 := decide (ts1x - ts1 ≥ 2)
  let cond2 := decide (ts2x - ts2 ≥ 2)
  let cond3 := decide (ts2x - ts1 ≥ 3)
  cond1 && cond2 && cond3

inductive FindPc where
  | readFirst
  | compareFirst (ptr1 : TablePointer)
  | readSecond (ts1 : Nat)
  | compareSecond (ts1 : Nat) (ptr2 : TablePointer)
  | recheckFirst (ts1 ts2 : Nat)
  | recheckSecond (ts1 ts2 ts1x : Nat)
  | help (frame : HelpFrame)
  deriving DecidableEq, Repr

structure FindFrame where
  fingerprint : Bytes
  hash1 : Nat
  hash2 : Nat
  slot : Nat
  pc : FindPc
  deriving DecidableEq, Repr

def FindFrame.goto (f : FindFrame) (pc : FindPc) : FindFrame := { f with pc := pc }

def FindFrame.enter (cfg : Config) (key : Bytes) : FindFrame :=
  let fingerprint := cfg.md5Fingerprint key
  let hash1 := (jenkinsHash key).toNat % cfg.tableSize
  ⟨fingerprint,hash1,getNextHashIndex cfg.tableSize hash1 fingerprint,0,.readFirst⟩

/-- The `break` out of the retry loop and the step to the next slot. -/
def FindFrame.nextSlot (f : FindFrame) : Flow FindFrame (Nat × TablePointer) :=
  if f.slot + 1 < numItemsPerEntry then .running { f with slot := f.slot + 1, pc := .readFirst }
  else .returned (numItemsPerEntry * 2,0)

/-- The result carries the word written to the `pointer` argument. -/
def find (cfg : Config) (tid : Nat) (m : Memory) (f : FindFrame) :
    Memory × Flow FindFrame (Nat × TablePointer) :=
  match f.pc with
  | .readFirst =>
    let ptr1 := m.hashTable f.hash1 f.slot
    let marked := m.markHazard (getRealPointer ptr1) 0 tid
    if getRealPointer ptr1 = 0 then (marked,.running (f.goto (.readSecond (getCounter ptr1))))
    else if getMarked ptr1 then
      (marked.clearHazard tid,.running (f.goto (.help (.enter f.hash1 f.slot false))))
    else (marked,.running (f.goto (.compareFirst ptr1)))
  | .compareFirst ptr1 =>
    if f.fingerprint = m.str (getRealPointer ptr1) then (m,.returned (f.slot,ptr1))
    else (m,.running (f.goto (.readSecond (getCounter ptr1))))
  | .readSecond ts1 =>
    let ptr2 := m.hashTable f.hash2 f.slot
    let marked := m.markHazard (getRealPointer ptr2) 1 tid
    if getRealPointer ptr2 = 0 then (marked,.running (f.goto (.recheckFirst ts1 (getCounter ptr2))))
    else if getMarked ptr2 then
      (marked.clearHazard tid,.running (f.goto (.help (.enter f.hash2 f.slot false))))
    else (marked,.running (f.goto (.compareSecond ts1 ptr2)))
  | .compareSecond ts1 ptr2 =>
    if f.fingerprint = m.str (getRealPointer ptr2) then
      (m,.returned (f.slot + numItemsPerEntry,ptr2))
    else (m,.running (f.goto (.recheckFirst ts1 (getCounter ptr2))))
  | .recheckFirst ts1 ts2 =>
    (m,.running (f.goto (.recheckSecond ts1 ts2 (getCounter (m.hashTable f.hash1 f.slot)))))
  | .recheckSecond ts1 ts2 ts1x =>
    let ts2x := getCounter (m.hashTable f.hash2 f.slot)
    if checkCounter ts1 ts2 ts1x ts2x then (m,.running (f.goto .readFirst))
    else (m,f.nextSlot)
  | .help frame =>
    match helpRelocate cfg tid m frame with
    | (next,.running frame) => (next,.running (f.goto (.help frame)))
    | (next,.returned _) => (next,.running (f.goto .readFirst))

inductive RelocatePc where
  | discover (depth : Int)
  | discoverHelp (depth : Int) (frame : HelpFrame)
  | discoverReread (depth : Int)
  | discoverDeref (depth : Int) (ptr1 : TablePointer)
  | traverse (depth i : Int)
  | traverseHelp (depth i : Int) (frame : HelpFrame)
  | traverseReread (depth i : Int)
  | traverseDeref (depth i : Int) (sourcePtr : TablePointer)
  | traverseDest (depth i : Int) (destIdx : Nat)
  | traverseMove (depth i : Int) (frame : HelpFrame)
  deriving DecidableEq, Repr

structure RelocateFrame where
  tableIdx : Nat
  slotIdx : Nat
  route : List Nat
  startLevel : Int
  pc : RelocatePc
  deriving DecidableEq, Repr

def RelocateFrame.goto (f : RelocateFrame) (pc : RelocatePc) : RelocateFrame := { f with pc := pc }

def RelocateFrame.sourceIdx (f : RelocateFrame) (depth : Int) : Nat := f.route.getD depth.toNat 0

/-- The label `path_discovery`: the route is cleared, `table_idx` keeps its value. -/
def RelocateFrame.pathDiscovery (f : RelocateFrame) (startLevel : Int) : RelocateFrame :=
  { f with route := List.replicate numMaxKicks 0, startLevel := startLevel, pc := .discover startLevel }

def RelocateFrame.enter (tableIdx slotIdx : Nat) : RelocateFrame :=
  RelocateFrame.pathDiscovery ⟨tableIdx,slotIdx,[],0,.discover 0⟩ 0

/-- The head of the traversal loop; past its end `found` is returned. -/
def RelocateFrame.iterate (f : RelocateFrame) (depth i : Int) : Flow RelocateFrame Bool :=
  if i ≥ 0 then .running (f.goto (.traverse depth i)) else .returned true

/-- An unmarked `ptr1` was read at `depth`; `found` ends the discovery with `depth--`. -/
def RelocateFrame.discovered (f : RelocateFrame) (depth : Int) (ptr1 : TablePointer) :
    Flow RelocateFrame Bool :=
  if getRealPointer ptr1 ≠ 0 then .running (f.goto (.discoverDeref depth ptr1))
  else f.iterate (depth - 1) (depth - 1)

/-- Line 519 on: an empty source is skipped. -/
def RelocateFrame.sourced (f : RelocateFrame) (depth i : Int) (sourcePtr : TablePointer) :
    Flow RelocateFrame Bool :=
  if getRealPointer sourcePtr = 0 then f.iterate depth (i - 1)
  else .running (f.goto (.traverseDeref depth i sourcePtr))

def relocate (cfg : Config) (tid : Nat) (m : Memory) (f : RelocateFrame) :
    Memory × Flow RelocateFrame Bool :=
  match f.pc with
  | .discover depth =>
    let ptr1 := m.hashTable f.tableIdx f.slotIdx
    let marked := m.markHazard (getRealPointer ptr1) 0 tid
    if getMarked ptr1 then
      (marked.clearHazard tid,.running (f.goto (.discoverHelp depth (.enter f.tableIdx f.slotIdx false))))
    else (marked,f.discovered depth ptr1)
  | .discoverHelp depth frame =>
    match helpRelocate cfg tid m frame with
    | (next,.running frame) => (next,.running (f.goto (.discoverHelp depth frame)))
    | (next,.returned _) => (next,.running (f.goto (.discoverReread depth)))
  | .discoverReread depth =>
    let ptr1 := m.hashTable f.tableIdx f.slotIdx
    if getMarked ptr1 then
      (m.clearHazard tid,.running (f.goto (.discoverHelp depth (.enter f.tableIdx f.slotIdx false))))
    else (m,f.discovered depth ptr1)
  | .discoverDeref depth ptr1 =>
    let next := getNextHashIndex cfg.tableSize f.tableIdx (m.str (getRealPointer ptr1))
    let extended := { f with route := f.route.set depth.toNat f.tableIdx, tableIdx := next }
    (m,if depth + 1 < numMaxKicks then .running (extended.goto (.discover (depth + 1)))
      else .returned false)
  | .traverse depth i =>
    let sourcePtr := m.hashTable (f.sourceIdx depth) f.slotIdx
    if getMarked sourcePtr then
      (m.clearHazard tid,
        .running (f.goto (.traverseHelp depth i (.enter (f.sourceIdx depth) f.slotIdx false))))
    else (m,f.sourced depth i sourcePtr)
  | .traverseHelp depth i frame =>
    match helpRelocate cfg tid m frame with
    | (next,.running frame) => (next,.running (f.goto (.traverseHelp depth i frame)))
    | (next,.returned _) => (next,.running (f.goto (.traverseReread depth i)))
  | .traverseReread depth i =>
    (m,f.sourced depth i (m.hashTable (f.sourceIdx depth) f.slotIdx))
  | .traverseDeref depth i sourcePtr =>
    let destIdx :=
      getNextHashIndex cfg.tableSize (f.sourceIdx depth) (m.str (getRealPointer sourcePtr))
    (m,.running (f.goto (.traverseDest depth i destIdx)))
  | .traverseDest depth i destIdx =>
    let destPtr := m.hashTable destIdx f.slotIdx
    let marked := m.markHazard (getRealPointer destPtr) 1 tid
    if getRealPointer destPtr ≠ 0 then (marked,.running (f.pathDiscovery (i + 1)))
    else (marked.clearHazard tid,
      .running (f.goto (.traverseMove depth i (.enter (f.sourceIdx depth) f.slotIdx true))))
  | .traverseMove depth i frame =>
    match helpRelocate cfg tid m frame with
    | (next,.running frame) => (next,.running (f.goto (.traverseMove depth i frame)))
    | (next,.returned _) => (next,f.iterate depth (i - 1))

inductive InsertPc where
  | allocate
  | probe (i : Nat) (second foundEmpty : Bool)
  | store (i : Nat) (second : Bool) (ptr1 : TablePointer)
  | shuffle
  | kick (rest : List Nat) (frame : RelocateFrame)
  deriving DecidableEq, Repr

structure InsertFrame where
  key : Bytes
  fingerprint : Bytes
  hash1 : Nat
  hash2 : Nat
  newEntry : Address
  pc : InsertPc
  deriving DecidableEq, Repr

def InsertFrame.goto (f : InsertFrame) (pc : InsertPc) : InsertFrame := { f with pc := pc }

def InsertFrame.enter (cfg : Config) (key : Bytes) : InsertFrame :=
  let fingerprint := cfg.md5Fingerprint key
  let hash1 := (jenkinsHash key).toNat % cfg.tableSize
  ⟨key,fingerprint,hash1,getNextHashIndex cfg.tableSize hash1 fingerprint,0,.allocate⟩

def InsertFrame.bucket (f : InsertFrame) (second : Bool) : Nat := if second then f.hash2 else f.hash1

/-- The slot after `(i, second)`, a new round, or the kick phase. -/
def InsertFrame.nextProbe (f : InsertFrame) (i : Nat) (second foundEmpty : Bool) : InsertFrame :=
  if !second then f.goto (.probe i true foundEmpty)
  else if i + 1 < numItemsPerEntry then f.goto (.probe (i + 1) false foundEmpty)
  else if foundEmpty then f.goto (.probe 0 false false)
  else f.goto .shuffle

/-- The next element of `try_kick_order`, or failure past its end. -/
def InsertFrame.nextKick (f : InsertFrame) : List Nat → Flow InsertFrame Bool
  | [] => .returned false
  | kickSlot :: rest => .running (f.goto (.kick rest (.enter f.hash1 kickSlot)))

/-- The two steps with a choice, `new` and `shuffle`, are in `threadStep`. -/
def insert (cfg : Config) (tid : Nat) (m : Memory) (f : InsertFrame) :
    Memory × Flow InsertFrame Bool :=
  match f.pc with
  | .allocate | .shuffle => (m,.running f)
  | .probe i second foundEmpty =>
    let ptr1 := m.hashTable (f.bucket second) i
    if getRealPointer ptr1 = 0 then (m,.running (f.goto (.store i second ptr1)))
    else (m,.running (f.nextProbe i second foundEmpty))
  | .store i second ptr1 =>
    match createPointer (getCounter ptr1) f.newEntry false with
    | none => (m.abort,.running f)
    | some word =>
      match m.compareAndSwap (f.bucket second) i ptr1 word with
      | (swapped,true) =>
        (swapped.recordStored ⟨tid,f.key,f.newEntry,f.bucket second,i⟩,.returned true)
      | (kept,false) => (kept,.running (f.nextProbe i second true))
  | .kick rest frame =>
    match relocate cfg tid m frame with
    | (next,.running frame) => (next,.running (f.goto (.kick rest frame)))
    | (next,.returned true) => (next,.running (f.goto (.probe 0 false false)))
    | (next,.returned false) => (next,f.nextKick rest)

inductive RemovePc where
  | find (frame : FindFrame)
  | cas (location : Nat) (ptr1 : TablePointer)
  deriving DecidableEq, Repr

structure RemoveFrame where
  key : Bytes
  hash1 : Nat
  hash2 : Nat
  pc : RemovePc
  deriving DecidableEq, Repr

def RemoveFrame.goto (f : RemoveFrame) (pc : RemovePc) : RemoveFrame := { f with pc := pc }

def RemoveFrame.enter (cfg : Config) (key : Bytes) : RemoveFrame :=
  let hash1 := (jenkinsHash key).toNat % cfg.tableSize
  ⟨key,hash1,getNextHashIndex cfg.tableSize hash1 (cfg.md5Fingerprint key),.find (.enter cfg key)⟩

def RemoveFrame.hashVal (f : RemoveFrame) (location : Nat) : Nat :=
  if location < numItemsPerEntry then f.hash1 else f.hash2

def remove (cfg : Config) (tid : Nat) (m : Memory) (f : RemoveFrame) :
    Memory × Flow RemoveFrame Bool :=
  match f.pc with
  | .find frame =>
    match find cfg tid m frame with
    | (next,.running frame) => (next,.running (f.goto (.find frame)))
    | (next,.returned (location,ptr1)) =>
      if location = numItemsPerEntry * 2 then (next,.returned false)
      else (next,.running (f.goto (.cas location ptr1)))
  | .cas location ptr1 =>
    match createPointer (getCounter ptr1) 0 false with
    | none => (m.abort,.running f)
    | some word =>
      let slot := location % numItemsPerEntry
      match m.compareAndSwap (f.hashVal location) slot ptr1 word with
      | (swapped,true) =>
        ((swapped.retireKey ptr1 tid).recordRemoved
          ⟨tid,f.key,getRealPointer ptr1,f.hashVal location,slot⟩,.returned true)
      | (kept,false) => (kept.clearHazard tid,.running (f.goto (.find (.enter cfg f.key))))

inductive Control where
  | idle
  | insert (frame : InsertFrame)
  | find (key : Bytes) (frame : FindFrame)
  | remove (frame : RemoveFrame)
  deriving DecidableEq, Repr

/-- A step's choice: the call to make, the address `new` returns, the outcome of
the shuffle; every other step is determined. -/
inductive Action where
  | invoke (call : Call)
  | allocate (address : Address)
  | shuffle (order : List Nat)
  | run
  deriving DecidableEq, Repr

/-- Every operation begins by clearing its thread's hazard cells. -/
def invoke (cfg : Config) (tid : Nat) (m : Memory) : Call → Memory × Control
  | .insert key => (m.clearHazard tid,.insert (.enter cfg key))
  | .find key => (m.clearHazard tid,.find key (.enter cfg key))
  | .remove key => (m.clearHazard tid,.remove (.enter cfg key))

def advance (cfg : Config) (tid : Nat) (m : Memory) : Control → Memory × Control
  | .idle => (m,.idle)
  | .insert frame =>
    match insert cfg tid m frame with
    | (next,.running frame) => (next,.insert frame)
    | (next,.returned result) => (next.respond tid (.insert frame.key) (.truth result),.idle)
  | .find key frame =>
    match find cfg tid m frame with
    | (next,.running frame) => (next,.find key frame)
    | (next,.returned (location,_)) => (next.respond tid (.find key) (.location location),.idle)
  | .remove frame =>
    match remove cfg tid m frame with
    | (next,.running frame) => (next,.remove frame)
    | (next,.returned result) => (next.respond tid (.remove frame.key) (.truth result),.idle)

/-- The control points whose step takes a choice. -/
def Control.pending : Control → Option InsertPc
  | .insert frame => some frame.pc
  | _ => none

def threadStep (cfg : Config) (tid : Nat) (m : Memory) (control : Control) :
    Action → Option (Memory × Control)
  | .invoke call => if control = .idle then some (invoke cfg tid m call) else none
  | .allocate address =>
    match control with
    | .insert frame =>
      if frame.pc = .allocate ∧ m.Fresh address then
        some (m.allocate address frame.fingerprint,
          .insert { frame with newEntry := address, pc := .probe 0 false false })
      else none
    | _ => none
  | .shuffle order =>
    match control with
    | .insert frame =>
      if frame.pc = .shuffle ∧ order.Perm (List.range numItemsPerEntry) then
        match frame.nextKick order with
        | .running next => some (m,.insert next)
        | .returned _ => none
      else none
    | _ => none
  | .run =>
    if control = .idle ∨ control.pending = some .allocate ∨ control.pending = some .shuffle then none
    else some (advance cfg tid m control)

structure System where
  memory : Memory
  control : Nat → Control

def System.initial : System := ⟨Memory.initial,fun _ => .idle⟩

/-- One step of one thread; nothing moves once the process has aborted. -/
def step (cfg : Config) (s : System) (tid : Nat) (action : Action) : Option System :=
  if s.memory.aborted then none
  else
    match threadStep cfg tid s.memory (s.control tid) action with
    | none => none
    | some (memory,control) =>
      some ⟨memory,fun other => if other = tid then control else s.control other⟩

def execute (cfg : Config) : List (Nat × Action) → System → Option System
  | [],s => some s
  | (tid,action) :: schedule,s => (step cfg s tid action).bind (execute cfg schedule)

end CuckooFilter.LockFree
