import CuckooFilter.Pointer

/-! Replacing one field of a table pointer, as a new word and in place. A field is a
mask; replacing it clears the mask's bits and puts in a value that has no others. -/
namespace CuckooFilter

/-- `none` is the call of `abort()` on a counter above `UINT16_MAX`. -/
def getNewCounter (pointer : TablePointer) (counterVal : Nat) : Option TablePointer :=
  if counterVal > 65535 then none
  else some ((pointer &&& ~~~counterMask) ||| (BitVec.ofNat 64 counterVal <<< 48))

def getNewRealPointer (pointer : TablePointer) (realPointer : Address) : TablePointer :=
  (pointer &&& ~~~realPointerMask) ||| realPointer

def updateCounter (counterVal : Nat) : StateT TablePointer Option Unit := do
  if counterVal > 65535 then failure
  modify (· &&& ~~~counterMask)
  modify (· ||| (BitVec.ofNat 64 counterVal <<< 48))

def updateRealPointer (realPointer : Address) : StateT TablePointer Option Unit := do
  modify (· &&& ~~~realPointerMask)
  modify (· ||| realPointer)

def updateMarked (marked : Bool) : StateT TablePointer Option Unit := do
  modify (· &&& ~~~markMask)
  modify (· ||| (BitVec.ofBool marked).setWidth 64)

/-- The three values a word is read as. -/
structure Fields (pointer : TablePointer) (counter : Nat) (realPointer : Address)
    (marked : Bool) : Prop where
  counter : getCounter pointer = counter
  realPointer : getRealPointer pointer = realPointer
  marked : getMarked pointer = marked

theorem fits_iff : Fits address ↔ address.toNat % 2 = 0 ∧ address.toNat < 2 ^ 48 := by
  constructor
  · intro fits
    have bits (i : Nat) := congrArg (fun x => x.getLsbD i) fits
    simp only [getRealPointer_bit] at bits
    refine ⟨?_,Nat.lt_pow_two_of_testBit _ fun i high => ?_⟩
    · have low := bits 0
      rw [← BitVec.testBit_toNat,Nat.testBit_zero] at low
      simpa using low.symm
    · have beyond := bits i
      rw [← BitVec.testBit_toNat] at beyond
      simpa [show ¬i < 48 by omega] using beyond.symm
  · rintro ⟨even,small⟩
    have half : 2 * (address.toNat / 2) = address.toNat := by omega
    have fits : Fits (BitVec.ofNat 64 (2 * (address.toNat / 2))) := fits_even (by omega)
    rwa [half,BitVec.ofNat_toNat,BitVec.setWidth_eq] at fits

theorem getNewCounter_exists (bound : counterVal ≤ 65535) (pointer : TablePointer) :
    ∃ word, getNewCounter pointer counterVal = some word := by
  simp [getNewCounter,show ¬counterVal > 65535 by omega]

theorem getNewCounter_bit (replaced : getNewCounter pointer counterVal = some word) (i : Nat) :
    word.getLsbD i =
      if i < 48 then pointer.getLsbD i else decide (i < 64) && counterVal.testBit (i - 48) := by
  have bound : ¬counterVal > 65535 := by
    intro large
    simp [getNewCounter,large] at replaced
  simp only [getNewCounter,bound,↓reduceIte,Option.some.injEq] at replaced
  subst word
  simp only [BitVec.getLsbD_or,BitVec.getLsbD_and,BitVec.getLsbD_not,counterMask_bit,
    BitVec.getLsbD_shiftLeft,BitVec.getLsbD_ofNat]
  by_cases top : i < 64
  · by_cases low : i < 48
    · simp [top,low,show ¬48 ≤ i by omega]
    · simp [top,low,show 48 ≤ i by omega,show i - 48 < 64 by omega]
  · simp [top,show ¬i < 48 by omega]

theorem getNewCounter_fields (replaced : getNewCounter pointer counterVal = some word)
    (bound : counterVal ≤ 65535) :
    Fields word counterVal (getRealPointer pointer) (getMarked pointer) := by
  refine ⟨?_,?_,?_⟩
  · apply Nat.eq_of_testBit_eq
    intro i
    rw [getCounter_bit,getNewCounter_bit replaced]
    by_cases h : i < 16
    · simp [h,show 48 + i < 64 by omega]
    · have small : counterVal < 2 ^ i :=
        lt_of_lt_of_le (by omega : counterVal < 2 ^ 16) (Nat.pow_le_pow_right (by omega) (by omega))
      simp [h,Nat.testBit_lt_two_pow small]
  · apply BitVec.eq_of_getLsbD_eq
    intro i hi
    rw [getRealPointer_bit,getRealPointer_bit,getNewCounter_bit replaced]
    by_cases low : i < 48 <;> simp [low]
  · rw [getMarked_bit,getMarked_bit,getNewCounter_bit replaced]
    simp

theorem fits_outside (fits : Fits address) (outside : ¬(1 ≤ i ∧ i < 48)) :
    address.getLsbD i = false := by
  have bit := congrArg (fun x => x.getLsbD i) fits
  simp only [getRealPointer_bit] at bit
  grind

theorem getNewRealPointer_bit (fits : Fits realPointer) (pointer : TablePointer) (i : Nat) :
    (getNewRealPointer pointer realPointer).getLsbD i =
      if 1 ≤ i ∧ i < 48 then realPointer.getLsbD i else pointer.getLsbD i := by
  simp only [getNewRealPointer,BitVec.getLsbD_or,BitVec.getLsbD_and,BitVec.getLsbD_not,
    realPointerMask_bit]
  by_cases inside : 1 ≤ i ∧ i < 48
  · simp [inside]
  · have kept : (decide (1 ≤ i) && decide (i < 48)) = false := by simpa using inside
    rw [if_neg inside,fits_outside fits inside,kept]
    by_cases top : i < 64
    · simp [top]
    · simp [BitVec.getLsbD_of_ge pointer i (by omega)]

theorem getNewRealPointer_fields (fits : Fits realPointer) (pointer : TablePointer) :
    Fields (getNewRealPointer pointer realPointer) (getCounter pointer) realPointer
      (getMarked pointer) := by
  refine ⟨?_,?_,?_⟩
  · apply Nat.eq_of_testBit_eq
    intro i
    rw [getCounter_bit,getCounter_bit,getNewRealPointer_bit fits,if_neg (by omega)]
  · apply BitVec.eq_of_getLsbD_eq
    intro i hi
    rw [getRealPointer_bit,getNewRealPointer_bit fits]
    by_cases inside : 1 ≤ i ∧ i < 48
    · simp [inside]
    · have kept : (decide (1 ≤ i) && decide (i < 48)) = false := by simpa using inside
      rw [kept,fits_outside fits inside,Bool.and_false]
  · rw [getMarked_bit,getMarked_bit,getNewRealPointer_bit fits,if_neg (by omega)]

theorem getNewMark_fields (pointer : TablePointer) (marked : Bool) :
    Fields (getNewMark pointer marked) (getCounter pointer) (getRealPointer pointer) marked :=
  ⟨getNewMark_counter pointer marked,getNewMark_real pointer marked,
    getNewMark_marked pointer marked⟩

theorem createPointer_fields (created : createPointer counter realPointer marked = some word)
    (fits : Fits realPointer) : Fields word counter realPointer marked :=
  ⟨createPointer_counter created fits,createPointer_real created fits,
    createPointer_marked created fits⟩

/-- A word is packed from its own fields. -/
theorem createPointer_of_fields (pointer : TablePointer) :
    createPointer (getCounter pointer) (getRealPointer pointer) (getMarked pointer) =
      some pointer := by
  obtain ⟨word,created⟩ :=
    createPointer_exists (getCounter_le pointer) (getRealPointer pointer) (getMarked pointer)
  have same := createPointer_fields created (getRealPointer_fits pointer)
  rw [created,pointer_ext same.counter same.realPointer same.marked]

theorem updateCounter_run (pointer : TablePointer) (counterVal : Nat) :
    (updateCounter counterVal).run pointer =
      (getNewCounter pointer counterVal).map fun word => ((),word) := by
  by_cases large : counterVal > 65535
  · simp [updateCounter,getNewCounter,large]
  · simp [updateCounter,getNewCounter,large]

theorem updateRealPointer_run (pointer : TablePointer) (realPointer : Address) :
    (updateRealPointer realPointer).run pointer =
      some ((),getNewRealPointer pointer realPointer) := by
  simp [updateRealPointer,getNewRealPointer]

theorem updateMarked_run (pointer : TablePointer) (marked : Bool) :
    (updateMarked marked).run pointer = some ((),getNewMark pointer marked) := by
  simp [updateMarked,getNewMark]

/-- Packing loses nothing, and each field is replaced on its own. -/
theorem table_pointer_fields (bound : counter ≤ 65535) (even : realPointer.toNat % 2 = 0)
    (small : realPointer.toNat < 2 ^ 48) (marked : Bool) (pointer : TablePointer) :
    (∃ word, createPointer counter realPointer marked = some word ∧
      Fields word counter realPointer marked) ∧
    createPointer (getCounter pointer) (getRealPointer pointer) (getMarked pointer) =
      some pointer ∧
    (∃ word, getNewCounter pointer counter = some word ∧
      Fields word counter (getRealPointer pointer) (getMarked pointer) ∧
      (updateCounter counter).run pointer = some ((),word)) ∧
    (Fields (getNewRealPointer pointer realPointer) (getCounter pointer) realPointer
        (getMarked pointer) ∧
      (updateRealPointer realPointer).run pointer =
        some ((),getNewRealPointer pointer realPointer)) ∧
    Fields (getNewMark pointer marked) (getCounter pointer) (getRealPointer pointer) marked ∧
    (updateMarked marked).run pointer = some ((),getNewMark pointer marked) := by
  have fits : Fits realPointer := fits_iff.mpr ⟨even,small⟩
  obtain ⟨word,created⟩ := createPointer_exists bound realPointer marked
  obtain ⟨counted,replaced⟩ := getNewCounter_exists bound pointer
  have updated : (updateCounter counter).run pointer = some ((),counted) := by
    rw [updateCounter_run,replaced]
    rfl
  exact ⟨⟨word,created,createPointer_fields created fits⟩,createPointer_of_fields pointer,
    ⟨counted,replaced,getNewCounter_fields replaced bound,updated⟩,
    ⟨getNewRealPointer_fields fits pointer,updateRealPointer_run pointer realPointer⟩,
    getNewMark_fields pointer marked,updateMarked_run pointer marked⟩

theorem table_pointer_fields_full :
    (∃ word, createPointer 65535 0x7ffd12345678 true = some word ∧
      Fields word 65535 0x7ffd12345678 true) ∧
    createPointer (getCounter 0x0010000000000abd) (getRealPointer 0x0010000000000abd)
      (getMarked 0x0010000000000abd) = some 0x0010000000000abd ∧
    (∃ word, getNewCounter 0x0010000000000abd 65535 = some word ∧
      Fields word 65535 (getRealPointer 0x0010000000000abd) (getMarked 0x0010000000000abd) ∧
      (updateCounter 65535).run 0x0010000000000abd = some ((),word)) ∧
    (Fields (getNewRealPointer 0x0010000000000abd 0x7ffd12345678) (getCounter 0x0010000000000abd)
        0x7ffd12345678 (getMarked 0x0010000000000abd) ∧
      (updateRealPointer 0x7ffd12345678).run 0x0010000000000abd =
        some ((),getNewRealPointer 0x0010000000000abd 0x7ffd12345678)) ∧
    Fields (getNewMark 0x0010000000000abd true) (getCounter 0x0010000000000abd)
      (getRealPointer 0x0010000000000abd) true ∧
    (updateMarked true).run 0x0010000000000abd = some ((),getNewMark 0x0010000000000abd true) :=
  table_pointer_fields (by decide) (by decide) (by decide) true 0x0010000000000abd

end CuckooFilter
