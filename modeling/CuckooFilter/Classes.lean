import CuckooFilter.Common
import CuckooFilter.Bag
import Mathlib.Data.Sym.Sym2
import Mathlib.Data.Finset.Prod

/-! The class of a key: what a filter can tell about it. A table of fingerprints
stands for the bag of its classes, wherever each fingerprint sits in its two buckets. -/
namespace CuckooFilter

/-- A fingerprint and its two buckets, in no order. -/
abbrev KeyClass := Bytes × Sym2 Nat

def classAt (tableSize bucket : Nat) (fingerprint : Bytes) : KeyClass :=
  (fingerprint,s(bucket,getNextHashIndex tableSize bucket fingerprint))

def keyClass (tableSize : Nat) (md5Fingerprint : Bytes → Bytes) (key : Bytes) : KeyClass :=
  classAt tableSize ((jenkinsHash key).toNat % tableSize) (md5Fingerprint key)

def tableSlots (tableSize : Nat) : Finset (Nat × Nat) :=
  Finset.range tableSize ×ˢ Finset.range numItemsPerEntry

section

variable {κ : Type*}

/-- What a table holds, each fingerprint seen through `label` at its bucket; `held` gives
the fingerprint of a slot. -/
def labels (tableSize : Nat) (label : Nat → Bytes → κ) (held : Nat → Nat → Option Bytes) :
    Multiset κ :=
  Bag.contents (tableSlots tableSize) fun slot => (held slot.1 slot.2).map (label slot.1)

def fingerprints (tableSize : Nat) (held : Nat → Nat → Option Bytes) : Multiset Bytes :=
  labels tableSize (fun _ fingerprint => fingerprint) held

variable {label : Nat → Bytes → κ} {held after : Nat → Nat → Option Bytes} {b i j : Nat}
variable {fingerprint : Bytes}

theorem mem_tableSlots : (b,i) ∈ tableSlots tableSize ↔ b < tableSize ∧ i < numItemsPerEntry := by
  simp [tableSlots]

theorem labels_empty (empty : ∀ b i, held b i = none) : labels tableSize label held = 0 := by
  refine Multiset.eq_zero_of_forall_notMem fun c member => ?_
  obtain ⟨slot,-,there⟩ := Bag.mem_contents.mp member
  simp [empty] at there

theorem labels_exchange (bucket : b < tableSize) (slot : i < numItemsPerEntry)
    (same : ∀ b' i', ¬(b' = b ∧ i' = i) → after b' i' = held b' i') :
    labels tableSize label after + (((held b i).map (label b)).toList : Multiset κ) =
      labels tableSize label held + (((after b i).map (label b)).toList : Multiset κ) := by
  refine Bag.contents_exchange (f := fun slot => (held slot.1 slot.2).map (label slot.1))
    (i := (b,i)) (mem_tableSlots.mpr ⟨bucket,slot⟩) ?_
  rintro ⟨b',i'⟩ - other
  rw [same b' i' (by simpa using other)]

theorem labels_put (bucket : b < tableSize) (slot : i < numItemsPerEntry)
    (same : ∀ b' i', ¬(b' = b ∧ i' = i) → after b' i' = held b' i')
    (free : held b i = none) (put : after b i = some fingerprint) :
    labels tableSize label after = label b fingerprint ::ₘ labels tableSize label held := by
  refine Bag.contents_put (i := (b,i)) (mem_tableSlots.mpr ⟨bucket,slot⟩) ?_
    (by simp [free]) (by simp [put])
  rintro ⟨b',i'⟩ - other
  rw [same b' i' (by simpa using other)]

end

/-- The class in a slot; `held` gives the fingerprint there. -/
def slotClass (tableSize : Nat) (held : Nat → Nat → Option Bytes) (slot : Nat × Nat) :
    Option KeyClass :=
  (held slot.1 slot.2).map (classAt tableSize slot.1)

/-- The bag a table stands for. -/
def classes (tableSize : Nat) (held : Nat → Nat → Option Bytes) : Multiset KeyClass :=
  Bag.contents (tableSlots tableSize) (slotClass tableSize held)

theorem classes_eq (tableSize : Nat) (held : Nat → Nat → Option Bytes) :
    classes tableSize held = labels tableSize (classAt tableSize) held := rfl

section

variable {held after : Nat → Nat → Option Bytes} {b i j : Nat} {fingerprint : Bytes}

theorem classAt_alternate (power : tableSize = 2 ^ e) (inside : b < tableSize)
    (fingerprint : Bytes) :
    classAt tableSize (getNextHashIndex tableSize b fingerprint) fingerprint =
      classAt tableSize b fingerprint := by
  rw [classAt,classAt,getNextHashIndex_involutive power inside,Sym2.eq_swap]

theorem classAt_eq_iff (power : tableSize = 2 ^ e) (inside : b' < tableSize) :
    classAt tableSize b f = classAt tableSize b' f' ↔
      f = f' ∧ (b = b' ∨ b = getNextHashIndex tableSize b' f') := by
  constructor
  · intro same
    obtain ⟨rfl,pair⟩ := Prod.mk.inj same
    rcases Sym2.eq_iff.mp pair with ⟨here,-⟩ | ⟨there,-⟩
    · exact ⟨rfl,.inl here⟩
    · exact ⟨rfl,.inr there⟩
  · rintro ⟨rfl,rfl | rfl⟩
    · rfl
    · exact classAt_alternate power inside _

/-- A class is in the bag when one of the two buckets holds its fingerprint. -/
theorem mem_classes (power : tableSize = 2 ^ e) (inside : b < tableSize) :
    classAt tableSize b fingerprint ∈ classes tableSize held ↔
      ∃ i < numItemsPerEntry, held b i = some fingerprint ∨
        held (getNextHashIndex tableSize b fingerprint) i = some fingerprint := by
  rw [classes,Bag.mem_contents]
  constructor
  · rintro ⟨⟨b',i⟩,member,found⟩
    obtain ⟨-,slot⟩ := mem_tableSlots.mp member
    obtain ⟨f,holds,same⟩ := Option.map_eq_some_iff.mp found
    obtain ⟨rfl,rfl | rfl⟩ := (classAt_eq_iff power inside).mp same
    · exact ⟨i,slot,.inl holds⟩
    · exact ⟨i,slot,.inr holds⟩
  · rintro ⟨i,slot,here | there⟩
    · exact ⟨(b,i),mem_tableSlots.mpr ⟨inside,slot⟩,by simp [slotClass,here]⟩
    · have other := getNextHashIndex_lt (Nat.zero_lt_of_lt inside) b fingerprint
      refine ⟨(_,i),mem_tableSlots.mpr ⟨other,slot⟩,?_⟩
      simp [slotClass,there,classAt_alternate power inside]

theorem classes_put (bucket : b < tableSize) (slot : i < numItemsPerEntry)
    (same : ∀ b' i', ¬(b' = b ∧ i' = i) → after b' i' = held b' i')
    (free : held b i = none) (put : after b i = some fingerprint) :
    classes tableSize after = classAt tableSize b fingerprint ::ₘ classes tableSize held :=
  labels_put bucket slot same free put

theorem classes_take (bucket : b < tableSize) (slot : i < numItemsPerEntry)
    (same : ∀ b' i', ¬(b' = b ∧ i' = i) → after b' i' = held b' i')
    (taken : held b i = some fingerprint) (free : after b i = none) :
    classes tableSize held = classAt tableSize b fingerprint ::ₘ classes tableSize after :=
  classes_put bucket slot (fun b' i' other => (same b' i' other).symm) free taken

theorem classes_move (power : tableSize = 2 ^ e) (bucket : b < tableSize)
    (slot : i < numItemsPerEntry) (apart : getNextHashIndex tableSize b fingerprint ≠ b)
    (same : ∀ b' i', ¬(b' = b ∧ i' = i) →
      ¬(b' = getNextHashIndex tableSize b fingerprint ∧ i' = i) → after b' i' = held b' i')
    (source : held b i = some fingerprint)
    (free : held (getNextHashIndex tableSize b fingerprint) i = none)
    (gone : after b i = none)
    (arrived : after (getNextHashIndex tableSize b fingerprint) i = some fingerprint) :
    classes tableSize after = classes tableSize held := by
  have other := getNextHashIndex_lt (Nat.zero_lt_of_lt bucket) b fingerprint
  refine Bag.contents_move (i := (b,i)) (j := (getNextHashIndex tableSize b fingerprint,i))
    (a := classAt tableSize b fingerprint) (mem_tableSlots.mpr ⟨bucket,slot⟩)
    (mem_tableSlots.mpr ⟨other,slot⟩) (by simpa using Ne.symm apart) ?_
    (by simp [slotClass,source]) (by simp [slotClass,free]) (by simp [slotClass,gone])
    (by simp [slotClass,arrived,classAt_alternate power bucket])
  rintro ⟨b',i'⟩ - here there
  simp only [slotClass,same b' i' (by simpa using here) (by simpa using there)]

end

end CuckooFilter
