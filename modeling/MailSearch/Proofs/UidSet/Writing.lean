import MailSearch.Proofs.UidSet.MaximalRuns

/-! # Reading back what is written

The writing of an endpoint, of a range and of a set that is not empty is read back as what it stands
for. Two sets are therefore written alike only if they are the same.
-/

namespace MailSearch

theorem decimalValue_eq (cs : List Char) : decimalValue cs = Nat.ofDigitChars 10 cs 0 := by
  simp [decimalValue, Nat.ofDigitChars_eq_foldl, Nat.mul_comm]

theorem decimalValue_toDigits (n : Nat) : decimalValue (Nat.toDigits 10 n) = n := by
  rw [decimalValue_eq, Nat.ofDigitChars_ten_toDigits]

theorem isDigit_of_mem_toDigits {n : Nat} {c : Char} (h : c ∈ Nat.toDigits 10 n) :
    isDigit c = true :=
  Nat.isDigit_of_mem_toDigits (by decide) (by decide) h

namespace Uid

theorem ofNat?_toNat (u : Uid) : ofNat? u.toNat = some u := by
  have hl := u.toNat_lt
  have hp := u.toNat_pos
  rw [ofNat?, dif_pos ⟨hl, by omega⟩, Option.some_inj]
  exact ext_toNat rfl

theorem toList_text (u : Uid) :
    u.text.toList = if u = greatest then ['*'] else Nat.toDigits 10 u.toNat := by
  rw [text]
  split
  · rfl
  · simp

theorem not_mem_text {u : Uid} {c : Char} (hs : c ≠ '*') (hd : isDigit c = false) :
    c ∉ u.text.toList := by
  rw [toList_text]
  split
  · simpa using hs
  · intro hc
    simp [isDigit_of_mem_toDigits hc] at hd

theorem ofText?_text (u : Uid) : ofText? u.text.toList = some u := by
  rw [toList_text]
  split
  · rename_i h
    rw [h]
    rfl
  · have hstar : Nat.toDigits 10 u.toNat ≠ ['*'] := by
      intro h
      have := isDigit_of_mem_toDigits (h ▸ List.mem_singleton_self '*')
      simp [isDigit] at this
    have hdigits : (Nat.toDigits 10 u.toNat).all isDigit = true :=
      List.all_eq_true.mpr fun _ hc => isDigit_of_mem_toDigits hc
    simp [ofText?, hstar, hdigits, decimalValue_toDigits, ofNat?_toNat]

end Uid

namespace UidRange

theorem not_mem_text {r : UidRange} {c : Char} (hs : c ≠ '*') (hc : c ≠ ':')
    (hd : isDigit c = false) : c ∉ r.text.toList := by
  rw [text]
  split
  · exact Uid.not_mem_text hs hd
  · simp [Uid.not_mem_text hs hd, hc]

theorem ofText?_text (r : UidRange) : ofText? r.text.toList = some r := by
  have hcolon : ∀ u : Uid, ':' ∉ u.text.toList := fun u => Uid.not_mem_text (by decide) (by decide)
  rw [text]
  split
  · rename_i h
    have hpoint : between r.first r.first = r := by
      conv_rhs => rw [← between_ends r, ← h]
    rw [ofText?, splitOn_eq, List.splitOn_eq_singleton (hcolon _)]
    simp only [Uid.ofText?_text, Option.bind_eq_bind, Option.bind_some, Option.pure_def, hpoint]
  · have hsplit : splitOn ':' (r.first.text ++ ":" ++ r.last.text).toList =
        [r.first.text.toList, r.last.text.toList] := by
      simp only [splitOn_eq, String.toList_append, List.append_assoc]
      change (r.first.text.toList ++ ':' :: r.last.text.toList).splitOn ':' = _
      rw [List.splitOn_append_cons_self_of_not_mem (hcolon _),
        List.splitOn_eq_singleton (hcolon _)]
    rw [ofText?, hsplit]
    simp only [Uid.ofText?_text, Option.bind_eq_bind, Option.bind_some, Option.pure_def,
      between_ends]

end UidRange

namespace UidSet

variable {s t : UidSet}

theorem splitOn_text (h : s.ranges ≠ []) :
    splitOn ',' s.text.toList = s.ranges.map (·.text.toList) := by
  rw [splitOn_eq, text, String.toList_intercalate, List.map_map]
  apply List.splitOn_intercalate
  · intro part hpart
    obtain ⟨r, -, rfl⟩ := List.mem_map.mp hpart
    exact UidRange.not_mem_text (by decide) (by decide) (by decide)
  · simpa using h

theorem foldl_ranges (s : UidSet) : s.ranges.foldl insertRange empty = s := by
  apply ext_mem
  intro u
  rw [mem_foldl_insertRange, or_iff_left not_mem_empty, mem_iff]

theorem parse_text (h : s ≠ empty) : parse s.text = .ok s := by
  have hne : s.ranges ≠ [] := fun he => h (ext_ranges he)
  have hparts : (splitOn ',' s.text.toList).mapM UidRange.ofText? = some s.ranges := by
    have hread : UidRange.ofText? ∘ (·.text.toList) = some := funext UidRange.ofText?_text
    rw [splitOn_text hne, List.mapM_map, hread]
    exact List.mapM_pure.trans (congrArg some (List.map_id _))
  simp [parse, ofText?, hparts, foldl_ranges]

theorem text_empty : empty.text = "" := rfl

/-- The empty text denotes no set. -/
theorem text_injective : Function.Injective text := by
  have hempty : ∀ {s : UidSet}, s ≠ empty → s.text ≠ empty.text := by
    intro s h he
    have hread := parse_text h
    rw [he, text_empty] at hread
    simp [parse, ofText?, splitOn, UidRange.ofText?, Uid.ofText?] at hread
  intro s t h
  by_cases hs : s = empty
  · by_cases ht : t = empty
    · rw [hs, ht]
    · exact absurd (hs ▸ h.symm) (hempty ht)
  · have ht : t ≠ empty := fun ht => hempty hs (ht ▸ h)
    have := (parse_text hs).symm.trans (h ▸ parse_text ht)
    simpa using this

end UidSet

end MailSearch
