import Mathlib.Data.Nat.Bitwise

/-! Table pointers: a 16-bit counter, a 48-bit address and a one-bit mark in one
64-bit word. Every later argument about a word goes through its three fields. -/
namespace CuckooFilter

abbrev TablePointer := BitVec 64
abbrev Address := BitVec 64

def counterMask : BitVec 64 := 0xFFFF000000000000
def realPointerMask : BitVec 64 := 0xFFFFFFFFFFFE
def markMask : BitVec 64 := 0x1

/-- The `uint16_t` result as the natural number it is promoted to in arithmetic. -/
def getCounter (pointer : TablePointer) : Nat :=
  (((pointer &&& counterMask) >>> 48).setWidth 16).toNat

def getRealPointer (pointer : TablePointer) : Address := pointer &&& realPointerMask

def getMarked (pointer : TablePointer) : Bool := (pointer &&& markMask) != 0

def getNewMark (pointer : TablePointer) (marked : Bool) : TablePointer :=
  (pointer &&& ~~~markMask) ||| (BitVec.ofBool marked).setWidth 64

/-- `none` is the call of `abort()` on a counter above `UINT16_MAX`. -/
def createPointer (counter : Nat) (realPointer : Address) (marked : Bool) : Option TablePointer :=
  if counter > 65535 then none
  else some (0#64 ||| (BitVec.ofBool marked).setWidth 64 ||| realPointer |||
    (BitVec.ofNat 64 counter <<< 48))

/-- An address that fits the pointer field: even and below `2^48`. -/
def Fits (address : Address) : Prop := getRealPointer address = address

instance (address : Address) : Decidable (Fits address) :=
  inferInstanceAs (Decidable (getRealPointer address = address))

theorem realPointerMask_bit (i : Nat) :
    realPointerMask.getLsbD i = (decide (1 ≤ i) && decide (i < 48)) := by
  by_cases h : i < 64
  · have small : ∀ i : Fin 64,
        realPointerMask.getLsbD i = (decide (1 ≤ i.val) && decide (i.val < 48)) := by decide
    exact small ⟨i,h⟩
  · rw [BitVec.getLsbD_of_ge _ _ (by omega)]
    simp; omega

theorem counterMask_bit (i : Nat) :
    counterMask.getLsbD i = (decide (48 ≤ i) && decide (i < 64)) := by
  by_cases h : i < 64
  · have small : ∀ i : Fin 64,
        counterMask.getLsbD i = (decide (48 ≤ i.val) && decide (i.val < 64)) := by decide
    exact small ⟨i,h⟩
  · rw [BitVec.getLsbD_of_ge _ _ (by omega)]
    simp; omega

theorem markMask_bit (i : Nat) : markMask.getLsbD i = decide (i = 0) := by simp [markMask]

theorem getRealPointer_bit (w : TablePointer) (i : Nat) :
    (getRealPointer w).getLsbD i = (w.getLsbD i && (decide (1 ≤ i) && decide (i < 48))) := by
  simp only [getRealPointer,BitVec.getLsbD_and,realPointerMask_bit]

theorem getMarked_bit (w : TablePointer) : getMarked w = w.getLsbD 0 := by
  have one : w &&& markMask = if w.getLsbD 0 then 1 else 0 := by
    apply BitVec.eq_of_getLsbD_eq
    intro i hi
    rw [BitVec.getLsbD_and,markMask_bit]
    by_cases h : i = 0
    · subst i; cases w.getLsbD 0 <;> simp
    · cases w.getLsbD 0 <;> simp [h]
  rw [getMarked,one]
  cases w.getLsbD 0 <;> decide

theorem getCounter_bit (w : TablePointer) (i : Nat) :
    (getCounter w).testBit i = (decide (i < 16) && w.getLsbD (48 + i)) := by
  simp only [getCounter,BitVec.testBit_toNat,BitVec.getLsbD_setWidth,BitVec.getLsbD_ushiftRight,
    BitVec.getLsbD_and,counterMask_bit]
  by_cases h : i < 16
  · simp [h]; omega
  · simp [h]

theorem getCounter_le (w : TablePointer) : getCounter w ≤ 65535 := by
  have := (((w &&& counterMask) >>> 48).setWidth 16).isLt
  simp only [getCounter]
  omega

@[simp] theorem getRealPointer_fits (w : TablePointer) : Fits (getRealPointer w) := by
  simp [Fits,getRealPointer,BitVec.and_assoc]

@[simp] theorem null_fits : Fits 0 := by decide

/-- The addresses `operator new` gives are even and below `2^48`. -/
theorem fits_even (small : 2 * n < 2 ^ 48) : Fits (BitVec.ofNat 64 (2 * n)) := by
  apply BitVec.eq_of_getLsbD_eq
  intro i inside
  rw [getRealPointer_bit,BitVec.getLsbD_ofNat]
  cases i with
  | zero => simp
  | succ i =>
    by_cases low : i + 1 < 48
    · simp [low]
    · have high : (2 * n).testBit (i + 1) = false :=
        Nat.testBit_lt_two_pow (lt_of_lt_of_le small (Nat.pow_le_pow_right (by omega) (by omega)))
      simp [high]

/-- The three fields determine the word. -/
theorem pointer_ext (counters : getCounter v = getCounter w)
    (reals : getRealPointer v = getRealPointer w) (marks : getMarked v = getMarked w) : v = w := by
  apply BitVec.eq_of_getLsbD_eq
  intro i hi
  by_cases zero : i = 0
  · rw [getMarked_bit,getMarked_bit] at marks
    rw [zero,marks]
  by_cases low : i < 48
  · have bit := congrArg (fun x => x.getLsbD i) reals
    simpa [getRealPointer_bit,low,show 1 ≤ i by omega] using bit
  · have bit := congrArg (fun n => n.testBit (i - 48)) counters
    simpa [getCounter_bit,show i - 48 < 16 by omega,show 48 + (i - 48) = i by omega] using bit

theorem createPointer_eq_none : createPointer counter p marked = none ↔ 65535 < counter := by
  simp [createPointer]

theorem createPointer_bound (created : createPointer counter p marked = some w) :
    counter ≤ 65535 := by
  by_contra large
  rw [createPointer_eq_none.mpr (by omega)] at created
  contradiction

theorem createPointer_bit (created : createPointer counter p marked = some w) (i : Nat) :
    w.getLsbD i = (decide (i = 0) && marked || p.getLsbD i ||
      (decide (48 ≤ i) && decide (i < 64) && counter.testBit (i - 48))) := by
  have bound := createPointer_bound created
  simp only [createPointer,show ¬counter > 65535 by omega,↓reduceIte,Option.some.injEq] at created
  subst w
  simp only [BitVec.getLsbD_or,BitVec.getLsbD_setWidth,BitVec.getLsbD_ofBool,
    BitVec.getLsbD_shiftLeft,BitVec.getLsbD_ofNat]
  by_cases top : i < 64
  · by_cases low : i < 48
    · simp [top,low,show ¬48 ≤ i by omega]
    · simp [top,low,show 48 ≤ i by omega,show i - 48 < 64 by omega]
  · simp [top,show i ≠ 0 by omega]

theorem createPointer_real (created : createPointer counter p marked = some w) (fits : Fits p) :
    getRealPointer w = p := by
  apply BitVec.eq_of_getLsbD_eq
  intro i hi
  have bit := congrArg (fun x => x.getLsbD i) fits
  simp only [getRealPointer_bit] at bit
  rw [getRealPointer_bit,createPointer_bit created]
  grind

theorem createPointer_marked (created : createPointer counter p marked = some w) (fits : Fits p) :
    getMarked w = marked := by
  have bit := congrArg (fun x => x.getLsbD 0) fits
  simp only [getRealPointer_bit] at bit
  rw [getMarked_bit,createPointer_bit created]
  grind

theorem createPointer_counter (created : createPointer counter p marked = some w) (fits : Fits p) :
    getCounter w = counter := by
  have bound := createPointer_bound created
  apply Nat.eq_of_testBit_eq
  intro i
  have bit := congrArg (fun x => x.getLsbD (48 + i)) fits
  simp only [getRealPointer_bit] at bit
  rw [getCounter_bit,createPointer_bit created]
  by_cases h : i < 16
  · simp [h]; grind
  · have small : counter < 2 ^ i :=
      lt_of_lt_of_le (by omega : counter < 2 ^ 16) (Nat.pow_le_pow_right (by omega) (by omega))
    simp [h,Nat.testBit_lt_two_pow small]

theorem createPointer_exists (bound : counter ≤ 65535) (p : Address) (marked : Bool) :
    ∃ w, createPointer counter p marked = some w := by
  simp [createPointer,show ¬counter > 65535 by omega]

theorem getNewMark_bit (w : TablePointer) (marked : Bool) (i : Nat) :
    (getNewMark w marked).getLsbD i = if i = 0 then marked else w.getLsbD i := by
  simp only [getNewMark,BitVec.getLsbD_or,BitVec.getLsbD_and,BitVec.getLsbD_not,markMask_bit,
    BitVec.getLsbD_setWidth,BitVec.getLsbD_ofBool]
  by_cases zero : i = 0
  · simp [zero]
  · by_cases top : i < 64
    · simp [zero,top]
    · simp [zero,BitVec.getLsbD_of_ge w i (by omega)]

@[simp] theorem getNewMark_counter (w : TablePointer) (marked : Bool) :
    getCounter (getNewMark w marked) = getCounter w := by
  apply Nat.eq_of_testBit_eq
  intro i
  simp [getCounter_bit,getNewMark_bit]

@[simp] theorem getNewMark_real (w : TablePointer) (marked : Bool) :
    getRealPointer (getNewMark w marked) = getRealPointer w := by
  apply BitVec.eq_of_getLsbD_eq
  intro i hi
  simp only [getRealPointer_bit,getNewMark_bit]
  by_cases zero : i = 0 <;> simp [zero]

@[simp] theorem getNewMark_marked (w : TablePointer) (marked : Bool) :
    getMarked (getNewMark w marked) = marked := by
  rw [getMarked_bit,getNewMark_bit]
  simp

@[simp] theorem getCounter_null : getCounter 0#64 = 0 := by decide
@[simp] theorem getRealPointer_null : getRealPointer 0#64 = 0#64 := by decide
@[simp] theorem getMarked_null : getMarked 0#64 = false := by decide

end CuckooFilter
