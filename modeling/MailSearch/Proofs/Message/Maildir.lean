import Mathlib.Data.List.Infix
import MailSearch.Maildir

/-! # Flags that a path gives

The letters that count are those after the last `:2,` of the file name, each of them wherever it
stands there; a name that is no text has none. A file in a directory of the name `new` is recent,
whatever its own name is.
-/

namespace MailSearch.Maildir

open MailSearch.Path

variable {mark cs rest rest' : List Char} {path : Path} {flag : Flag}

/-- What comes after the last place where the mark stands. -/
structure FollowsLast (mark cs rest : List Char) : Prop where
  follows : mark ++ rest <:+ cs
  shortest : ∀ rest', mark ++ rest' <:+ cs → rest.length ≤ rest'.length

theorem FollowsLast.unique (h : FollowsLast mark cs rest) (h' : FollowsLast mark cs rest') :
    rest = rest' := by
  have hlength := Nat.le_antisymm (h.shortest rest' h'.follows) (h'.shortest rest h.follows)
  have hsuffix : rest <:+ rest' := List.suffix_of_suffix_length_le
    ((List.suffix_append mark rest).trans h.follows)
    ((List.suffix_append mark rest').trans h'.follows) hlength.le
  exact hsuffix.eq_of_length hlength

theorem not_follows_of_afterLast? (hmark : mark ≠ []) (h : afterLast? mark cs = none) :
    ¬ mark ++ rest <:+ cs := by
  induction cs with
  | nil => simp [hmark]
  | cons c cs ih =>
    rw [afterLast?] at h
    split at h
    · cases h
    · rename_i hnone
      rw [List.suffix_cons_iff, not_or]
      refine ⟨fun he => ?_, ih hnone⟩
      rw [if_pos (List.isPrefixOf_iff_prefix.mpr ⟨rest, he⟩)] at h
      cases h

theorem followsLast_of_afterLast? (hmark : mark ≠ []) (h : afterLast? mark cs = some rest) :
    FollowsLast mark cs rest := by
  induction cs with
  | nil => cases h
  | cons c cs ih =>
    rw [afterLast?] at h
    split at h
    · rename_i later hlater
      obtain rfl := Option.some.inj h
      obtain ⟨hfollows, hshortest⟩ := ih hlater
      refine ⟨hfollows.trans (List.suffix_cons c cs), fun rest' hrest' => ?_⟩
      rcases List.suffix_cons_iff.mp hrest' with he | hrest'
      · have hle := hfollows.length_le
        have heq := congrArg List.length he
        simp only [List.length_append, List.length_cons] at hle heq
        omega
      · exact hshortest rest' hrest'
    · rename_i hnone
      split at h
      · rename_i hprefix
        obtain ⟨here, he⟩ := List.isPrefixOf_iff_prefix.mp hprefix
        rw [← he, List.drop_left] at h
        obtain rfl := Option.some.inj h
        refine ⟨he ▸ List.suffix_rfl, fun rest' hrest' => ?_⟩
        rcases List.suffix_cons_iff.mp hrest' with he' | hrest'
        · exact (congrArg List.length (List.append_cancel_left (he.trans he'.symm))).le
        · exact absurd hrest' (not_follows_of_afterLast? hmark hnone)
      · cases h

theorem afterLast?_eq_some_iff (hmark : mark ≠ []) :
    afterLast? mark cs = some rest ↔ FollowsLast mark cs rest := by
  refine ⟨followsLast_of_afterLast? hmark, fun h => ?_⟩
  cases hlast : afterLast? mark cs with
  | none => exact absurd h.follows (not_follows_of_afterLast? hmark hlast)
  | some rest' => rw [h.unique (followsLast_of_afterLast? hmark hlast)]

theorem mem_letters_iff {name : String} {c : Char} :
    c ∈ letters name ↔ ∃ rest, FollowsLast [':', '2', ','] name.toList rest ∧ c ∈ rest := by
  simp only [letters, ← afterLast?_eq_some_iff (List.cons_ne_nil ':' ['2', ','])]
  cases afterLast? [':', '2', ','] name.toList <;> simp

/-- The flags that the path of a message file gives it. -/
inductive Gives (path : Path) : Flag → Prop
  | letter {raw : Bytes} {name : String} {rest : List Char} {c : Char} {f : SystemFlag} :
      lastName? path.steps = some raw → Utf8.decode? raw = some name →
      FollowsLast [':', '2', ','] name.toList rest → c ∈ rest → flagOfLetter? c = some f →
      Gives path (.system f)
  | recent : lastName? path.steps.dropLast = some (Utf8.encode "new") →
      Gives path (.system .recent)

theorem mem_flagsOf_iff : flag ∈ flagsOf path ↔ Gives path flag := by
  simp only [flagsOf, List.mem_map, List.mem_append, List.mem_filterMap]
  constructor
  · rintro ⟨f, ⟨c, hc, hf⟩ | hf, rfl⟩
    · cases hname : (lastName? path.steps).bind Utf8.decode? with
      | none => simp [hname] at hc
      | some name =>
        rw [hname] at hc
        obtain ⟨raw, hraw, htext⟩ := Option.bind_eq_some_iff.mp hname
        obtain ⟨rest, hrest, hmem⟩ := mem_letters_iff.mp hc
        exact .letter hraw htext hrest hmem hf
    · split at hf
      · rename_i hnew
        obtain rfl := List.mem_singleton.mp hf
        exact .recent hnew
      · cases hf
  · rintro (⟨hraw, htext, hrest, hmem, hf⟩ | hnew)
    · have hname := Option.bind_eq_some_iff.mpr ⟨_, hraw, htext⟩
      exact ⟨_, .inl ⟨_, by rw [hname]; exact mem_letters_iff.mpr ⟨_, hrest, hmem⟩, hf⟩, rfl⟩
    · exact ⟨_, .inr (by rw [if_pos hnew]; exact List.mem_singleton_self _), rfl⟩

end MailSearch.Maildir
