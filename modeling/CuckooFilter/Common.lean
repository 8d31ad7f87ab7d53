import Mathlib.Data.Nat.Bitwise
import Mathlib.Logic.Function.Iterate

/-! Sizes shared by the filters, the one-at-a-time hash and the alternative
bucket. The fingerprint function itself is OpenSSL's and stays a parameter. -/
namespace CuckooFilter

/-- A `std::string` as its bytes. -/
abbrev Bytes := List (BitVec 8)

/-- `NUM_ITEMS_PER_ENTRY` -/
def numItemsPerEntry : Nat := 4

/-- `NUM_MAX_KICKS` -/
def numMaxKicks : Nat := 10

/-- One round of the loop. `key[i]` is a signed `char`, so the byte is sign
extended by the integer promotions before the 32-bit addition wraps. -/
def mixByte (hashVal : BitVec 32) (byte : BitVec 8) : BitVec 32 :=
  let added := hashVal + byte.signExtend 32
  let shifted := added + (added <<< 10)
  shifted ^^^ (shifted >>> 6)

def jenkinsHash (key : Bytes) : BitVec 32 :=
  let hashVal := key.foldl mixByte 0
  let shifted := hashVal + (hashVal <<< 3)
  let mixed := shifted ^^^ (shifted >>> 11)
  mixed + (mixed <<< 15)

def getNextHashIndex (tableSize currIdx : Nat) (fingerprint : Bytes) : Nat :=
  (currIdx ^^^ ((jenkinsHash fingerprint).toNat % tableSize)) % tableSize

theorem getNextHashIndex_lt (positive : 0 < tableSize) (currIdx : Nat) (fingerprint : Bytes) :
    getNextHashIndex tableSize currIdx fingerprint < tableSize :=
  Nat.mod_lt _ positive

/-- A power-of-two table keeps both reductions inside the low bits, where
exclusive-or undoes itself. -/
theorem getNextHashIndex_involutive (power : tableSize = 2 ^ e) (inside : currIdx < tableSize)
    (fingerprint : Bytes) :
    getNextHashIndex tableSize (getNextHashIndex tableSize currIdx fingerprint) fingerprint =
      currIdx := by
  have offset : (jenkinsHash fingerprint).toNat % tableSize < tableSize :=
    Nat.mod_lt _ (by omega)
  subst power
  have moved := Nat.xor_lt_two_pow inside offset
  rw [getNextHashIndex, getNextHashIndex, Nat.mod_eq_of_lt moved, Nat.xor_assoc, Nat.xor_self,
    Nat.xor_zero, Nat.mod_eq_of_lt inside]

theorem xor_le_add (x y : Nat) : x ^^^ y ≤ x + y := by
  induction x using Nat.strongRecOn generalizing y with
  | ind x ih =>
    by_cases zero : x = 0
    · simp [zero]
    · have half := ih (x / 2) (by omega) (y / 2)
      rw [← Nat.xor_div_two] at half
      have low := Nat.xor_mod_two_eq_one (a := x) (b := y)
      omega

theorem wrap_le (positive : 0 < n) (beyond : n ≤ x) : x % n + n ≤ x := by
  have whole := Nat.mod_add_div x n
  have : n * 1 ≤ n * (x / n) := Nat.mul_le_mul_left n (Nat.div_pos beyond positive)
  omega

/-- Two hops come back exactly when the exclusive-or stays inside the table. A reduction
that goes down loses `tableSize`, more than the second exclusive-or can add. -/
theorem getNextHashIndex_twice (inside : currIdx < tableSize) (fingerprint : Bytes) :
    getNextHashIndex tableSize (getNextHashIndex tableSize currIdx fingerprint) fingerprint =
        currIdx ↔
      currIdx ^^^ ((jenkinsHash fingerprint).toNat % tableSize) < tableSize := by
  have positive : 0 < tableSize := by omega
  have offset : (jenkinsHash fingerprint).toNat % tableSize < tableSize := Nat.mod_lt _ positive
  simp only [getNextHashIndex]
  generalize (jenkinsHash fingerprint).toNat % tableSize = g at offset ⊢
  constructor
  · intro back
    by_contra beyond
    have first : (currIdx ^^^ g) % tableSize + tableSize ≤ currIdx + g :=
      (wrap_le positive (by omega)).trans (xor_le_add currIdx g)
    have second : (currIdx ^^^ g) % tableSize ^^^ g ≤ (currIdx ^^^ g) % tableSize + g :=
      xor_le_add _ g
    by_cases wraps : tableSize ≤ (currIdx ^^^ g) % tableSize ^^^ g
    · have := wrap_le positive wraps
      omega
    · rw [Nat.mod_eq_of_lt (by omega)] at back
      have same : (currIdx ^^^ g) % tableSize = currIdx ^^^ g := calc
        (currIdx ^^^ g) % tableSize = (currIdx ^^^ g) % tableSize ^^^ g ^^^ g := by
          rw [Nat.xor_assoc,Nat.xor_self,Nat.xor_zero]
        _ = currIdx ^^^ g := by rw [back]
      omega
  · intro stays
    rw [Nat.mod_eq_of_lt stays,Nat.xor_assoc,Nat.xor_self,Nat.xor_zero,Nat.mod_eq_of_lt inside]

/-- A fingerprint keeps to its two candidate buckets over any number of hops exactly when
the exclusive-or of the first with the reduced hash is itself a bucket. -/
theorem candidate_buckets_closed_iff (inside : currIdx < tableSize) (fingerprint : Bytes) :
    (getNextHashIndex tableSize (getNextHashIndex tableSize currIdx fingerprint) fingerprint =
        currIdx ∧
      ∀ hops, (getNextHashIndex tableSize · fingerprint)^[hops] currIdx = currIdx ∨
        (getNextHashIndex tableSize · fingerprint)^[hops] currIdx =
          getNextHashIndex tableSize currIdx fingerprint) ↔
      currIdx ^^^ ((jenkinsHash fingerprint).toNat % tableSize) < tableSize := by
  rw [← getNextHashIndex_twice inside]
  refine ⟨And.left,fun back => ⟨back,fun hops => ?_⟩⟩
  induction hops with
  | zero => exact .inl rfl
  | succ hops ih =>
    rw [Function.iterate_succ_apply']
    rcases ih with home | away
    · rw [home]
      exact .inr rfl
    · rw [away]
      exact .inl back

def sampleFingerprint : Bytes := List.replicate 15 0 ++ [1]

/-- The other bucket is 255999, the last one. -/
theorem candidate_buckets_paired :
    getNextHashIndex 256000 (getNextHashIndex 256000 60258 sampleFingerprint) sampleFingerprint =
        60258 ∧
      ∀ hops, (getNextHashIndex 256000 · sampleFingerprint)^[hops] 60258 = 60258 ∨
        (getNextHashIndex 256000 · sampleFingerprint)^[hops] 60258 =
          getNextHashIndex 256000 60258 sampleFingerprint :=
  (candidate_buckets_closed_iff (by decide) sampleFingerprint).mpr (by decide +kernel)

theorem alternate_not_involutive : ¬∀ tableSize > 0, ∀ currIdx < tableSize, ∀ fingerprint,
    getNextHashIndex tableSize (getNextHashIndex tableSize currIdx fingerprint) fingerprint =
      currIdx := by
  intro involutive
  have back := involutive 256000 (by decide) 58525 (by decide) sampleFingerprint
  revert back
  decide +kernel

def sampleMd5 : Bytes → Bytes
  | [0x61] => [0x0c,0xc1,0x75,0xb9,0xc0,0xf1,0xb6,0xa8,0x31,0xc3,0x99,0xe2,0x69,0x77,0x26,0x61]
  | [0x63] => [0x4a,0x8a,0x08,0xf0,0x9d,0x37,0xb7,0x37,0x95,0x64,0x90,0x38,0x40,0x8b,0x5f,0x33]
  | [0x66] => [0x8f,0xa1,0x4c,0xdd,0x75,0x4f,0x91,0xcc,0x65,0x54,0xc9,0xe7,0x19,0x29,0xcc,0xe7]
  | _ => [0xd4,0x1d,0x8c,0xd9,0x8f,0x00,0xb2,0x04,0xe9,0x80,0x09,0x98,0xec,0xf8,0x42,0x7e]

theorem sampleMd5_length (key : Bytes) : (sampleMd5 key).length = 16 := by
  unfold sampleMd5
  split <;> rfl

theorem sampleMd5_nonempty (key : Bytes) : sampleMd5 key ≠ [] := by
  unfold sampleMd5
  split <;> simp

def keyA : Bytes := [0x61]
def keyC : Bytes := [0x63]
def keyF : Bytes := [0x66]

end CuckooFilter
