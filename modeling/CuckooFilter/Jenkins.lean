import CuckooFilter.BitMix
import CuckooFilter.Common
import Mathlib.Data.List.Induction

/-! `jenkins_hash` against the published one-at-a-time function. The two loops run
together until a byte of 128 or more; both mix reversibly, so what they differ by
there stays, unless a later such byte takes it back. -/
namespace CuckooFilter

variable {byte byte' : BitVec 8} {key front back : Bytes}

/-- One round of the published function: a byte is a number from 0 to 255. -/
def publishedByte (hash : BitVec 32) (byte : BitVec 8) : BitVec 32 :=
  let added := hash + byte.setWidth 32
  let shifted := added + (added <<< 10)
  shifted ^^^ (shifted >>> 6)

def oneAtATime (key : Bytes) : BitVec 32 :=
  let hash := key.foldl publishedByte 0
  let shifted := hash + (hash <<< 3)
  let mixed := shifted ^^^ (shifted >>> 11)
  mixed + (mixed <<< 15)

theorem round_injective : Function.Injective fun added : BitVec 32 =>
    (added + added <<< 10) ^^^ (added + added <<< 10) >>> 6 :=
  (BitMix.xor_shiftRight_injective (by decide)).comp (BitMix.add_shiftLeft_injective (by decide))

theorem final_injective : Function.Injective fun hash : BitVec 32 =>
    let mixed := (hash + hash <<< 3) ^^^ (hash + hash <<< 3) >>> 11
    mixed + mixed <<< 15 :=
  (BitMix.add_shiftLeft_injective (by decide)).comp
    ((BitMix.xor_shiftRight_injective (by decide)).comp
      (BitMix.add_shiftLeft_injective (by decide)))

theorem signExtend_low (low : byte.toNat < 128) :
    byte.signExtend 32 = byte.setWidth 32 := by
  apply BitVec.signExtend_eq_setWidth_of_msb_false
  rw [BitVec.msb_eq_decide]
  simpa using low

/-- `int` conversion of a signed `char`: a byte of 128 or more stands for itself less 256. -/
theorem signExtend_high (high : 128 ≤ byte.toNat) :
    byte.signExtend 32 + 256 = byte.setWidth 32 := by
  have all : ∀ b : BitVec 8, 128 ≤ b.toNat → b.signExtend 32 + 256 = b.setWidth 32 := by decide
  exact all byte high

theorem mixByte_low (low : byte.toNat < 128) :
    mixByte x byte = publishedByte y byte ↔ x = y := by
  simp only [mixByte,publishedByte,signExtend_low low]
  exact round_injective.eq_iff.trans (BitVec.add_left_inj _)

theorem mixByte_high (high : 128 ≤ byte.toNat) :
    mixByte x byte = publishedByte y byte ↔ x = y + 256 := by
  simp only [mixByte,publishedByte,← signExtend_high high]
  refine round_injective.eq_iff.trans ?_
  have shuffled : y + (byte.signExtend 32 + 256) = y + 256 + byte.signExtend 32 := by ac_rfl
  rw [shuffled,BitVec.add_left_inj]

/-- Over bytes below 128 the two loops stay together or apart. -/
theorem low_bytes_agree (lows : ∀ byte ∈ back, byte.toNat < 128) (x y : BitVec 32) :
    back.foldl mixByte x = back.foldl publishedByte y ↔ x = y := by
  induction back generalizing x y with
  | nil => exact .rfl
  | cons byte back ih =>
    obtain ⟨low,rest⟩ := List.forall_mem_cons.mp lows
    exact (ih rest _ _).trans (mixByte_low low)

theorem jenkinsHash_eq_iff (key : Bytes) : jenkinsHash key = oneAtATime key ↔
    key.foldl mixByte 0 = key.foldl publishedByte 0 :=
  final_injective.eq_iff

theorem low_bytes_published (lows : ∀ byte ∈ key, byte.toNat < 128) :
    jenkinsHash key = oneAtATime key :=
  (jenkinsHash_eq_iff key).mpr ((low_bytes_agree lows 0 0).mpr rfl)

/-- A single byte of 128 or more takes the loops apart, and nothing brings them back. -/
theorem high_byte_differs (before : ∀ early ∈ front, early.toNat < 128) (high : 128 ≤ byte.toNat)
    (after : ∀ later ∈ back, later.toNat < 128) :
    jenkinsHash (front ++ byte :: back) ≠ oneAtATime (front ++ byte :: back) := by
  intro same
  rw [jenkinsHash_eq_iff,List.foldl_append,List.foldl_append,List.foldl_cons,List.foldl_cons,
    low_bytes_agree after,mixByte_high high,(low_bytes_agree before 0 0).mpr rfl] at same
  simp at same

/-- On bytes below 128 the hash is the published one. It is the published one along all prefixes
of a string only if the string has no other bytes, and on a string with one other byte it never
is. -/
theorem jenkinsHash_published (key : Bytes) :
    ((∀ byte ∈ key, byte.toNat < 128) → jenkinsHash key = oneAtATime key) ∧
    ((∀ n, jenkinsHash (key.take n) = oneAtATime (key.take n)) ↔
      ∀ byte ∈ key, byte.toNat < 128) ∧
    (key.countP (128 ≤ ·.toNat) = 1 → jenkinsHash key ≠ oneAtATime key) := by
  refine ⟨low_bytes_published,⟨fun prefixes => ?_,fun lows n => ?_⟩,fun once => ?_⟩
  · induction key using List.reverseRecOn with
    | nil => simp
    | append_singleton key byte ih =>
      have before : ∀ n, jenkinsHash (key.take n) = oneAtATime (key.take n) := by
        intro n
        have shorter := prefixes (min n key.length)
        rwa [List.take_append_of_le_length (by omega),← List.take_eq_take_min] at shorter
      have lows := ih before
      have whole := prefixes (key ++ [byte]).length
      rw [List.take_length] at whole
      have low : byte.toNat < 128 := by
        by_contra high
        exact high_byte_differs lows (by omega) (by simp) whole
      exact List.forall_mem_append.mpr ⟨lows,List.forall_mem_singleton.mpr low⟩
  · exact low_bytes_published fun byte inside => lows byte (List.mem_of_mem_take inside)
  · obtain ⟨byte,inside,high⟩ := List.countP_pos_iff.mp (once ▸ Nat.one_pos)
    obtain ⟨front,back,rfl⟩ := List.append_of_mem inside
    rw [List.countP_append,List.countP_cons,if_pos high] at once
    have others {rest : Bytes} (none : rest.countP (128 ≤ ·.toNat) = 0) :
        ∀ byte ∈ rest, byte.toNat < 128 := by
      intro byte member
      have small := List.countP_eq_zero.mp none byte member
      simpa using small
    exact high_byte_differs (others (by omega)) (by simpa using high) (others (by omega))

/-- All ASCII texts, a digest along its prefixes, and a Latin-1 `fé`. -/
theorem foo_bar_published :
    jenkinsHash [0x66,0x6f,0x6f,0x20,0x62,0x61,0x72] =
        oneAtATime [0x66,0x6f,0x6f,0x20,0x62,0x61,0x72] ∧
      (∃ n, jenkinsHash ((sampleMd5 keyA).take n) ≠ oneAtATime ((sampleMd5 keyA).take n)) ∧
      jenkinsHash [0x66,0xe9] ≠ oneAtATime [0x66,0xe9] := by
  refine ⟨(jenkinsHash_published _).1 (by decide),?_,(jenkinsHash_published _).2.2 (by decide)⟩
  by_contra same
  simp only [ne_eq,not_exists,not_not] at same
  have lows := (jenkinsHash_published (sampleMd5 keyA)).2.1.mp same
  revert lows
  decide

/-- With more of them the loops can come together again. -/
example : jenkinsHash [0x04,0xef,0xa5,0x80,0x80] = oneAtATime [0x04,0xef,0xa5,0x80,0x80] := by
  decide +kernel

theorem jenkinsHash_not_published :
    ¬∀ key : Bytes, key.length < 2 ^ 31 → jenkinsHash key = oneAtATime key := by
  intro published
  have fingerprint := published (sampleMd5 keyA) (by decide)
  revert fingerprint
  decide +kernel

end CuckooFilter
