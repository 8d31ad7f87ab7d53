import CuckooFilter.Sequential
import CuckooFilter.Transition

/-! The filter with one mutex for every eighth bucket. A scan of a bucket under its mutex
is one step, with the store or the clearing it ends in. The swap of the kick loop holds no
mutex: it is one step, or a read of the slot and a later write. Calls of `rand()` are choices
of the step; `verbose` output is left out. -/
namespace CuckooFilter.FineGrained

structure Config where
  tableSize : Nat
  positive : 0 < tableSize
  md5Fingerprint : Bytes → Bytes
  digest : ∀ key, (md5Fingerprint key).length = 16

/-- The fields `table_size` and `hash_table` are those of the sequential filter. -/
abbrev Table := SequentialFilter

/-- `std::swap(fingerprint, hash_table[replace_hash][bucket_idx])` -/
inductive Swap where
  | whole
  | split
  deriving DecidableEq, Repr

inductive InsertPc where
  | first
  | second
  | flag
  | swap (n replaceHash : Nat)
  | write (n replaceHash bucketIdx : Nat) (victim : Bytes)
  | place (n replaceHash : Nat)
  deriving DecidableEq, Repr

structure InsertFrame where
  key : Bytes
  fingerprint : Bytes
  hash1 : Nat
  hash2 : Nat
  pc : InsertPc
  deriving DecidableEq, Repr

def InsertFrame.goto (f : InsertFrame) (pc : InsertPc) : InsertFrame := { f with pc := pc }

def Config.hash1 (cfg : Config) (key : Bytes) : Nat := (jenkinsHash key).toNat % cfg.tableSize

def Config.hash2 (cfg : Config) (key : Bytes) : Nat :=
  getNextHashIndex cfg.tableSize (cfg.hash1 key) (cfg.md5Fingerprint key)

def InsertFrame.enter (cfg : Config) (key : Bytes) : InsertFrame :=
  ⟨key,cfg.md5Fingerprint key,cfg.hash1 key,cfg.hash2 key,.first⟩

/-- The fingerprint in hand goes into the slot, the victim is taken to its next bucket. -/
def InsertFrame.swapped (f : InsertFrame) (cfg : Config) (table : Table)
    (n replaceHash bucketIdx : Nat) (victim : Bytes) : Table × (InsertFrame ⊕ Bool) :=
  (table.write replaceHash bucketIdx f.fingerprint,
    .inl { f with
      fingerprint := victim
      pc := .place n (getNextHashIndex cfg.tableSize replaceHash victim) })

/-- A step ends in a frame or with the answer. -/
def insert (cfg : Config) (swap : Swap) (table : Table) (f : InsertFrame) (rand : Nat) :
    Table × (InsertFrame ⊕ Bool) :=
  match f.pc with
  | .first =>
    match table.scan List.isEmpty f.hash1 with
    | some i => (table.write f.hash1 i f.fingerprint,.inr true)
    | none => (table,.inl (f.goto .second))
  | .second =>
    match table.scan List.isEmpty f.hash2 with
    | some i => (table.write f.hash2 i f.fingerprint,.inr true)
    | none => (table,.inl (f.goto .flag))
  | .flag => (table,.inl (f.goto (.swap 0 (if rand % 2 = 0 then f.hash1 else f.hash2))))
  | .swap n replaceHash =>
    let bucketIdx := rand % numItemsPerEntry
    let victim := table.hashTable replaceHash bucketIdx
    match swap with
    | .whole => f.swapped cfg table n replaceHash bucketIdx victim
    | .split => (table,.inl (f.goto (.write n replaceHash bucketIdx victim)))
  | .write n replaceHash bucketIdx victim => f.swapped cfg table n replaceHash bucketIdx victim
  | .place n replaceHash =>
    match table.scan List.isEmpty replaceHash with
    | some i => (table.write replaceHash i f.fingerprint,.inr true)
    | none =>
      if n + 1 < numMaxKicks then (table,.inl (f.goto (.swap (n + 1) replaceHash)))
      else (table,.inr false)

/-- Before the scan of the first or of the second bucket. -/
structure LookFrame where
  key : Bytes
  fingerprint : Bytes
  hash1 : Nat
  hash2 : Nat
  second : Bool
  deriving DecidableEq, Repr

def LookFrame.enter (cfg : Config) (key : Bytes) : LookFrame :=
  ⟨key,cfg.md5Fingerprint key,cfg.hash1 key,cfg.hash2 key,false⟩

def LookFrame.bucket (f : LookFrame) : Nat := if f.second then f.hash2 else f.hash1

/-- A bucket without the fingerprint: on to the other one, or the answer. -/
def LookFrame.miss (f : LookFrame) : LookFrame ⊕ Bool :=
  if f.second then .inr false else .inl { f with second := true }

def find (table : Table) (f : LookFrame) : Table × (LookFrame ⊕ Bool) :=
  match table.scan (· = f.fingerprint) f.bucket with
  | some _ => (table,.inr true)
  | none => (table,f.miss)

def remove (table : Table) (f : LookFrame) : Table × (LookFrame ⊕ Bool) :=
  match table.scan (fun str => str.length ≠ 0 ∧ str = f.fingerprint) f.bucket with
  | some i => (table.write f.bucket i [],.inr true)
  | none => (table,f.miss)

abbrev Call := Bag.Op Bytes

inductive Control where
  | idle
  | insert (frame : InsertFrame)
  | find (frame : LookFrame)
  | remove (frame : LookFrame)
  deriving DecidableEq, Repr

/-- A call, or a step inside one with what `rand()` returns in it. -/
inductive Action where
  | invoke (call : Call)
  | run (rand : Nat)

/-- `returned` is history: no step reads it. -/
structure System where
  table : Table
  control : Nat → Control
  returned : List (Nat × Call × Bool)

def System.initial (cfg : Config) : System := ⟨.new cfg.tableSize,fun _ => .idle,[]⟩

def invoke (cfg : Config) : Call → Control
  | .insert key => .insert (.enter cfg key)
  | .find key => .find (.enter cfg key)
  | .remove key => .remove (.enter cfg key)

def System.goto (s : System) (tid : Nat) (control : Control) : System :=
  { s with control := fun other => if other = tid then control else s.control other }

def System.settle (s : System) (tid : Nat) (call : Call) (wrap : Frame → Control) :
    Table × (Frame ⊕ Bool) → System
  | (table,.inl frame) => { s.goto tid (wrap frame) with table := table }
  | (table,.inr answer) =>
    { s.goto tid .idle with table := table, returned := (tid,call,answer) :: s.returned }

def step (cfg : Config) (swap : Swap) (s : System) (tid : Nat) : Action → Option System
  | .invoke call => if s.control tid = .idle then some (s.goto tid (invoke cfg call)) else none
  | .run rand =>
    match s.control tid with
    | .idle => none
    | .insert f => some (s.settle tid (.insert f.key) .insert (insert cfg swap s.table f rand))
    | .find f => some (s.settle tid (.find f.key) .find (find s.table f))
    | .remove f => some (s.settle tid (.remove f.key) .remove (remove s.table f))

/-- A run in which every step meets a condition on its thread, its choice and the state
before it. -/
def Run (cfg : Config) (swap : Swap) (condition : Nat → Action → System → Prop) :
    System → System → Prop :=
  Relation.ReflTransGen fun s t => ∃ tid action, condition tid action s ∧
    step cfg swap s tid action = some t

end CuckooFilter.FineGrained
