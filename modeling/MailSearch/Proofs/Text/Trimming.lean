import Mathlib.Data.List.DropRight
import MailSearch.Text.Blank

/-! # Trimming

What trimming takes off a text is blanks, and more blanks around the text make no difference to what
is left. Trimming that again therefore leaves it as it is.
-/

namespace MailSearch

variable {cs left right : List Char}

theorem trimChars_padded (hl : ∀ c ∈ left, isBlank c = true) (hr : ∀ c ∈ right, isBlank c = true) :
    trimChars (left ++ cs ++ right) = trimChars cs := by
  have hright : right.dropWhile isBlank = [] := by
    rw [← List.append_nil right, List.dropWhile_append_of_pos hr]
    rfl
  have hr' : ∀ c ∈ right.reverse, isBlank c = true := fun c hc => hr c (List.mem_reverse.mp hc)
  rw [trimChars, trimChars, List.append_assoc, List.dropWhile_append_of_pos hl,
    List.dropWhile_append]
  split
  · rename_i hcs
    rw [List.isEmpty_iff.mp hcs, hright]
  · rw [List.reverse_append, List.dropWhile_append_of_pos hr']

theorem exists_padding (cs : List Char) :
    ∃ left right, cs = left ++ trimChars cs ++ right ∧ (∀ c ∈ left, isBlank c = true) ∧
      ∀ c ∈ right, isBlank c = true := by
  refine ⟨cs.takeWhile isBlank, (cs.dropWhile isBlank).rtakeWhile isBlank, ?_, ?_, ?_⟩
  · have hright : trimChars cs ++ (cs.dropWhile isBlank).rtakeWhile isBlank =
        cs.dropWhile isBlank := List.rdropWhile_append_rtakeWhile
    rw [List.append_assoc, hright, List.takeWhile_append_dropWhile]
  · exact fun c hc => List.mem_takeWhile_imp hc
  · exact fun c hc => List.mem_rtakeWhile_imp hc

@[simp] theorem trimChars_trimChars (cs : List Char) : trimChars (trimChars cs) = trimChars cs := by
  obtain ⟨left, right, hcs, hl, hr⟩ := exists_padding cs
  conv_rhs => rw [hcs]
  exact (trimChars_padded hl hr).symm

@[simp] theorem trim_trim (s : String) : trim (trim s) = trim s := by
  simp [trim]

end MailSearch
