import Mathlib.Data.Nat.Bitwise
import MailSearch.Proofs.Message.Reading

/-! # Flags and the names they were set by

A message has the flags whose names it was given, whatever was done to it in between. To set or to
look up a system flag is to set or to test its own bit; a keyword touches no bit.
-/

namespace MailSearch

namespace SystemFlag

theorem exists_bit_eq (f : SystemFlag) : ∃ i < 6, f.bit = 2 ^ i := by
  cases f <;> decide

theorem exists_eq_bit : ∀ i < 6, ∃ f : SystemFlag, f.bit = 2 ^ i
  | 0, _ => ⟨answered, rfl⟩
  | 1, _ => ⟨deleted, rfl⟩
  | 2, _ => ⟨draft, rfl⟩
  | 3, _ => ⟨flagged, rfl⟩
  | 4, _ => ⟨recent, rfl⟩
  | 5, _ => ⟨seen, rfl⟩

theorem eq_of_bit_eq {f g : SystemFlag} (h : f.bit = g.bit) : f = g := by
  revert h
  cases f <;> cases g <;> decide

end SystemFlag

namespace Flags

variable {flags : Flags} {flag other : Flag} {f : SystemFlag}

theorem hasBits_two_pow (i : Nat) : flags.hasBits (2 ^ i) = flags.systemBits.testBit i := by
  rw [hasBits, Nat.and_two_pow]
  cases flags.systemBits.testBit i with
  | false => simpa using (Nat.two_pow_pos i).ne
  | true => simp

theorem has_system_iff : flags.has (.system f) = true ↔ flags.systemBits &&& f.bit ≠ 0 := by
  obtain ⟨i, -, hi⟩ := f.exists_bit_eq
  change flags.hasBits f.bit = true ↔ _
  rw [hi, hasBits_two_pow, Nat.and_two_pow]
  cases flags.systemBits.testBit i <;> simp

theorem has_set_system_iff (f g : SystemFlag) :
    (flags.set (.system f)).has (.system g) = true ↔ g = f ∨ flags.has (.system g) = true := by
  obtain ⟨i, -, hi⟩ := f.exists_bit_eq
  obtain ⟨j, -, hj⟩ := g.exists_bit_eq
  have hsame : i = j ↔ g = f := by
    constructor
    · rintro rfl
      exact SystemFlag.eq_of_bit_eq (hj.trans hi.symm)
    · rintro rfl
      exact Nat.pow_right_injective (Nat.le_refl 2) (hi.symm.trans hj)
  change ({ flags with systemBits := flags.systemBits ||| f.bit } : Flags).hasBits g.bit = true ↔
    _ ∨ flags.hasBits g.bit = true
  rw [hj, hasBits_two_pow, hasBits_two_pow, hi, Nat.testBit_or, Nat.testBit_two_pow, ← hsame]
  simp [or_comm]

/-- Setting a flag sets no other, be it a bit or a keyword. -/
theorem has_set_iff :
    (flags.set flag).has other = true ↔ other = flag ∨ flags.has other = true := by
  match flag, other with
  | .system f, .system g => simpa using has_set_system_iff f g
  | .system f, .keyword k => exact (or_iff_right nofun).symm
  | .keyword k, .system g => exact (or_iff_right nofun).symm
  | .keyword k, .keyword k' =>
    change (flags.keywords.insert k).contains k' = true ↔ _ ∨ flags.keywords.contains k' = true
    simp

theorem systemBits_set_lt (h : flags.systemBits < 64) : (flags.set flag).systemBits < 64 := by
  cases flag with
  | system f =>
    obtain ⟨i, hi, hbit⟩ := f.exists_bit_eq
    have hlt : f.bit < 2 ^ 6 := hbit ▸ Nat.pow_lt_pow_right Nat.one_lt_two hi
    exact Nat.or_lt_two_pow h hlt
  | keyword name => exact h

/-- The six bits are all that there is to the number. -/
theorem systemBits_congr {flags' : Flags} (h : flags.systemBits < 64) (h' : flags'.systemBits < 64)
    (hsame : ∀ f, flags'.has (.system f) = flags.has (.system f)) :
    flags'.systemBits = flags.systemBits := by
  refine Nat.eq_of_testBit_eq fun i => ?_
  by_cases hi : i < 6
  · obtain ⟨f, hf⟩ := SystemFlag.exists_eq_bit i hi
    rw [← hasBits_two_pow, ← hasBits_two_pow, ← hf]
    exact hsame f
  · have hle : 64 ≤ 2 ^ i := Nat.pow_le_pow_right Nat.two_pos (Nat.le_of_not_lt hi)
    rw [Nat.testBit_lt_two_pow (Nat.lt_of_lt_of_le h' hle),
      Nat.testBit_lt_two_pow (Nat.lt_of_lt_of_le h hle)]

end Flags

namespace Message

/-- The messages that can be made with flags given by name, and these names. -/
inductive FlaggedBy : Message → List String → Prop
  | empty : FlaggedBy empty []
  | parse (raw : Bytes) : FlaggedBy (parse raw) []
  | setFlag {m : Message} {names : List String} {name : String} {flag : Flag} :
      Flag.ofName? name = some flag → FlaggedBy m names →
      FlaggedBy (m.setFlag flag) (names ++ [name])
  | addField {m : Message} {names : List String} (field : HeaderField) :
      FlaggedBy m names → FlaggedBy (m.addField field) names
  | setUid {m : Message} {names : List String} (uid : Option Uid) :
      FlaggedBy m names → FlaggedBy (m.setUid uid) names

variable {m m' : Message} {names names' : List String} {flag other : Flag}

theorem hasFlag_setFlag_iff :
    (m.setFlag flag).hasFlag other = true ↔ other = flag ∨ m.hasFlag other = true :=
  Flags.has_set_iff

theorem hasFlag_setFlag_of_ne (h : other ≠ flag) :
    (m.setFlag flag).hasFlag other = m.hasFlag other := by
  rw [Bool.eq_iff_iff, hasFlag_setFlag_iff, or_iff_right h]

theorem hasFlag_foldl_setFlag_iff {flags : List Flag} :
    (flags.foldl setFlag m).hasFlag flag = true ↔ flag ∈ flags ∨ m.hasFlag flag = true := by
  induction flags generalizing m with
  | nil => simp
  | cons first flags ih =>
    rw [List.foldl_cons, ih, hasFlag_setFlag_iff, List.mem_cons, or_left_comm, or_assoc]

theorem foldl_setFlag (flags : List Flag) (m : Message) :
    ∃ set, flags.foldl setFlag m = { m with flags := set } := by
  induction flags generalizing m with
  | nil => exact ⟨m.flags, rfl⟩
  | cons first flags ih => exact ih (m.setFlag first)

theorem flags_parse (raw : Bytes) : (parse raw).flags = {} := (foldl_addField _ empty).2.1

theorem not_hasFlag_of_flags_eq (h : m.flags = {}) : ¬ m.hasFlag flag = true := by
  rw [hasFlag, h]
  cases flag with
  | system f => cases f <;> nofun
  | keyword name => nofun

theorem systemBits_iff {f : SystemFlag} :
    m.flags.systemBits &&& f.bit ≠ 0 ↔ m.hasFlag (.system f) = true :=
  Flags.has_system_iff.symm

theorem FlaggedBy.systemBits_lt (h : FlaggedBy m names) : m.flags.systemBits < 64 := by
  induction h with
  | empty => decide
  | parse raw => rw [flags_parse]; decide
  | setFlag _ _ ih => exact Flags.systemBits_set_lt ih
  | addField field _ ih => exact ih
  | setUid uid _ ih => exact ih

theorem FlaggedBy.hasFlag_iff_exists (h : FlaggedBy m names) :
    m.hasFlag flag = true ↔ ∃ name ∈ names, Flag.ofName? name = some flag := by
  induction h with
  | empty => exact iff_of_false (not_hasFlag_of_flags_eq rfl) (by simp)
  | parse raw => exact iff_of_false (not_hasFlag_of_flags_eq (flags_parse raw)) (by simp)
  | @setFlag m names name set hname _ ih =>
    rw [hasFlag_setFlag_iff, ih]
    simp [hname, or_comm, eq_comm]
  | addField field _ ih => exact ih
  | setUid uid _ ih => exact ih

/-- Neither order nor repetition of the names makes a difference. -/
theorem FlaggedBy.hasFlag_congr (h : FlaggedBy m names) (h' : FlaggedBy m' names')
    (hnames : ∀ name, name ∈ names' ↔ name ∈ names) : m'.hasFlag flag = m.hasFlag flag := by
  rw [Bool.eq_iff_iff, h.hasFlag_iff_exists, h'.hasFlag_iff_exists]
  simp only [hnames]

end Message

end MailSearch
