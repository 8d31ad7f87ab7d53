import Mathlib.Data.Nat.ModEq
import Mathlib.Data.Nat.Prime.Basic

/-! The two reversible steps of shift-and-add hash functions, on words of any width. -/
namespace BitMix

/-- Adding a word shifted up is a product with an odd number. -/
theorem add_shiftLeft_toNat (x : BitVec w) (k : Nat) :
    (x + x <<< k).toNat = x.toNat * (1 + 2 ^ k) % 2 ^ w := by
  simp only [BitVec.toNat_add,BitVec.toNat_shiftLeft,Nat.shiftLeft_eq,Nat.add_mod_mod]
  rw [Nat.mul_add,Nat.mul_one]

theorem add_shiftLeft_injective (positive : 0 < k) :
    Function.Injective fun x : BitVec w => x + x <<< k := by
  intro x y same
  have product := congrArg BitVec.toNat same
  simp only [add_shiftLeft_toNat] at product
  have even : Even (2 ^ k) := Nat.even_pow.mpr ⟨even_two,by omega⟩
  have coprime : Nat.gcd (2 ^ w) (1 + 2 ^ k) = 1 :=
    Nat.Coprime.pow_left w (Nat.coprime_two_left.mpr (even.one_add))
  have congruent : x.toNat ≡ y.toNat [MOD 2 ^ w] :=
    Nat.ModEq.cancel_right_of_coprime coprime product
  exact BitVec.eq_of_toNat_eq (congruent.eq_of_lt_of_lt x.isLt y.isLt)

/-- The bits come back from the top one down: the bit `k` above is known when a bit is
wanted. -/
theorem xor_shiftRight_injective (positive : 0 < k) :
    Function.Injective fun x : BitVec w => x ^^^ x >>> k := by
  intro x y same
  have bits : ∀ n i, w ≤ i + n → x.getLsbD i = y.getLsbD i := by
    intro n
    induction n with
    | zero =>
      intro i top
      rw [BitVec.getLsbD_of_ge x i (by omega),BitVec.getLsbD_of_ge y i (by omega)]
    | succ n ih =>
      intro i top
      have above : x.getLsbD (k + i) = y.getLsbD (k + i) := ih _ (by omega)
      have mixed := congrArg (fun z => z.getLsbD i) same
      simpa [BitVec.getLsbD_xor,BitVec.getLsbD_ushiftRight,above] using mixed
  exact BitVec.eq_of_getLsbD_eq fun i _ => bits w i (by omega)

end BitMix
