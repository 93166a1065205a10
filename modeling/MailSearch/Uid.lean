/-! # Message numbers

A UID is a 32-bit word other than zero. The greatest of them is written `*`.
-/

namespace MailSearch

structure Uid where
  word : UInt32
  ne_zero : word ≠ 0
deriving DecidableEq

namespace Uid

instance : LE Uid := ⟨fun a b => a.word ≤ b.word⟩

instance : LT Uid := ⟨fun a b => a.word < b.word⟩

instance (a b : Uid) : Decidable (a ≤ b) := inferInstanceAs (Decidable (a.word ≤ b.word))

instance (a b : Uid) : Decidable (a < b) := inferInstanceAs (Decidable (a.word < b.word))

def toNat (u : Uid) : Nat := u.word.toNat

def greatest : Uid := ⟨4294967295, by decide⟩

/-- The UID that a word is; zero is none. -/
def ofWord? (word : UInt32) : Option Uid := if h : word ≠ 0 then some ⟨word, h⟩ else none

def ofNat? (n : Nat) : Option Uid :=
  if h : n < 4294967296 ∧ n ≠ 0 then
    some ⟨UInt32.ofNatLT n h.1, fun h0 => h.2 (by simpa using congrArg UInt32.toNat h0)⟩
  else none

theorem ext_toNat {a b : Uid} (h : a.toNat = b.toNat) : a = b := by
  cases a; cases b
  simpa [toNat, UInt32.toNat_inj] using h

theorem toNat_lt (u : Uid) : u.toNat < 4294967296 := u.word.toNat_lt

theorem toNat_pos (u : Uid) : 0 < u.toNat :=
  Nat.pos_of_ne_zero fun h => u.ne_zero (UInt32.toNat_inj.mp h)

theorem le_iff {a b : Uid} : a ≤ b ↔ a.toNat ≤ b.toNat := UInt32.le_iff_toNat_le

theorem lt_iff {a b : Uid} : a < b ↔ a.toNat < b.toNat := UInt32.lt_iff_toNat_lt

@[simp] theorem toNat_greatest : greatest.toNat = 4294967295 := rfl

theorem toNat_ofNat? {n : Nat} {u : Uid} (h : ofNat? n = some u) : u.toNat = n := by
  simp only [ofNat?] at h
  split at h
  · cases h; rfl
  · cases h

theorem ofNat?_map_toNat {n : Nat} (h : 0 < n) (hn : n < 4294967296) :
    (ofNat? n).map toNat = some n := by
  rw [ofNat?, dif_pos ⟨hn, Nat.ne_of_gt h⟩]
  rfl

theorem exists_toNat_eq {n : Nat} {u : Uid} (h : 0 < n) (hu : n ≤ u.toNat) :
    ∃ v : Uid, v.toNat = n := by
  have hlt := Nat.lt_of_le_of_lt hu u.toNat_lt
  obtain ⟨v, -, hv⟩ := Option.map_eq_some_iff.mp (ofNat?_map_toNat h hlt)
  exact ⟨v, hv⟩

theorem toNat_word_add_one {u : Uid} (h : u ≠ greatest) : (u.word + 1).toNat = u.toNat + 1 := by
  have hl := u.toNat_lt
  have hn : u.toNat ≠ 4294967295 := fun e => h (ext_toNat e)
  rw [UInt32.toNat_add, UInt32.toNat_one]
  simp only [toNat] at *; omega

/-- The UID after `u`; the greatest is taken to follow itself. -/
def next (u : Uid) : Uid :=
  if h : u = greatest then u
  else ⟨u.word + 1, fun h0 => by
    have := toNat_word_add_one h
    rw [h0] at this
    cases this⟩

theorem toNat_next (u : Uid) : u.next.toNat = min (u.toNat + 1) 4294967295 := by
  have hl := u.toNat_lt
  simp only [next]
  split
  · rename_i h; subst h; rfl
  · rename_i h
    have hn : u.toNat ≠ 4294967295 := fun e => h (ext_toNat e)
    rw [toNat, toNat_word_add_one h]; omega

/-- Past the greatest UID there is none, so that the saturated successor makes no difference. -/
theorem le_next_iff {u v : Uid} : v ≤ u.next ↔ v.toNat ≤ u.toNat + 1 := by
  have hl := v.toNat_lt
  rw [le_iff, toNat_next]
  omega

/-- The word before `u`, which is zero, and so no UID, for the least of them. -/
def below (u : Uid) : UInt32 := u.word - 1

theorem toNat_below (u : Uid) : u.below.toNat = u.toNat - 1 := by
  have h := u.toNat_pos
  exact UInt32.toNat_sub_of_le _ _ (UInt32.le_iff_toNat_le.mpr h)

theorem toNat_below_add_one (u : Uid) : u.below.toNat + 1 = u.toNat := by
  rw [toNat_below, Nat.sub_add_cancel u.toNat_pos]

theorem below_le_word_iff {u v : Uid} : u.below ≤ v.word ↔ u.toNat ≤ v.toNat + 1 := by
  rw [UInt32.le_iff_toNat_le, toNat_below, Nat.sub_le_iff_le_add]
  rfl

def smaller (a b : Uid) : Uid := if a ≤ b then a else b

def larger (a b : Uid) : Uid := if a ≤ b then b else a

theorem toNat_smaller (a b : Uid) : (smaller a b).toNat = min a.toNat b.toNat := by
  simp only [smaller, le_iff]; split <;> omega

theorem toNat_larger (a b : Uid) : (larger a b).toNat = max a.toNat b.toNat := by
  simp only [larger, le_iff]; split <;> omega

end Uid

end MailSearch
