import MailSearch.Proofs.Parser.Laws

/-! # Progress and repetition

A parser progresses if every success takes a symbol at least. Repetition of such a parser never
fails: it reads occurrence after occurrence and stops where there is none.
-/

namespace MailSearch.Parser

variable {τ α β : Type} {p q : Parser τ α} {s rest : List τ}

/-- Success leaves an end of the input. -/
def Shortens (p : Parser τ α) : Prop := ∀ ⦃s a rest⦄, p s = some (a, rest) → rest <:+ s

/-- Success leaves an end of the input that is shorter than the whole. -/
def Progresses (p : Parser τ α) : Prop :=
  ∀ ⦃s a rest⦄, p s = some (a, rest) → rest <:+ s ∧ rest.length < s.length

theorem Progresses.shortens (hp : Progresses p) : Shortens p := fun _ _ _ h => (hp h).1

theorem shortens_pure (a : α) : Shortens (pure a : Parser τ α) := by
  intro s b rest h
  obtain ⟨rfl, rfl⟩ := Prod.mk.inj (pure_eq_some.mp h)
  exact List.suffix_rfl

theorem progresses_failure : Progresses (failure : Parser τ α) := by
  intro s a rest h
  cases h

theorem Shortens.bind {f : α → Parser τ β} (hp : Shortens p) (hf : ∀ a, Shortens (f a)) :
    Shortens (p >>= f) := by
  intro s b rest h
  obtain ⟨a, mid, ha, hb⟩ := bind_eq_some.mp h
  exact (hf a hb).trans (hp ha)

theorem Progresses.bind {f : α → Parser τ β} (hp : Progresses p) (hf : ∀ a, Shortens (f a)) :
    Progresses (p >>= f) := by
  intro s b rest h
  obtain ⟨a, mid, ha, hb⟩ := bind_eq_some.mp h
  obtain ⟨hsuf, hlt⟩ := hp ha
  exact ⟨(hf a hb).trans hsuf, Nat.lt_of_le_of_lt (hf a hb).length_le hlt⟩

theorem Shortens.bind_progresses {f : α → Parser τ β} (hp : Shortens p)
    (hf : ∀ a, Progresses (f a)) : Progresses (p >>= f) := by
  intro s b rest h
  obtain ⟨a, mid, ha, hb⟩ := bind_eq_some.mp h
  obtain ⟨hsuf, hlt⟩ := hf a hb
  exact ⟨hsuf.trans (hp ha), Nat.lt_of_lt_of_le hlt (hp ha).length_le⟩

theorem Shortens.orElse (hp : Shortens p) (hq : Shortens q) : Shortens (p <|> q) := by
  intro s a rest h
  rcases orElse_eq_some.mp h with h | ⟨-, h⟩
  · exact hp h
  · exact hq h

theorem Progresses.orElse (hp : Progresses p) (hq : Progresses q) : Progresses (p <|> q) := by
  intro s a rest h
  rcases orElse_eq_some.mp h with h | ⟨-, h⟩
  · exact hp h
  · exact hq h

theorem Shortens.map {f : α → β} (hp : Shortens p) : Shortens (f <$> p) := by
  intro s b rest h
  obtain ⟨a, mid, ha, he⟩ := map_eq_some.mp h
  cases he
  exact hp ha

theorem Progresses.map {f : α → β} (hp : Progresses p) : Progresses (f <$> p) := by
  intro s b rest h
  obtain ⟨a, mid, ha, he⟩ := map_eq_some.mp h
  cases he
  exact hp ha

theorem Shortens.optional (hp : Shortens p) : Shortens (optional p) :=
  hp.map.orElse (shortens_pure none)

theorem progresses_satisfy (c : τ → Bool) : Progresses (satisfy c : Parser τ τ) := by
  intro s b rest h
  obtain ⟨-, rfl⟩ := satisfy_eq_some.mp h
  exact ⟨List.suffix_cons .., Nat.lt_succ_self _⟩

theorem progresses_symbol [BEq τ] (b : τ) : Progresses (symbol b : Parser τ Unit) :=
  (progresses_satisfy _).bind fun _ => shortens_pure ()

theorem shortens_span (c : τ → Bool) : Shortens (span c : Parser τ (List τ)) := by
  intro s as rest h
  cases h
  exact List.dropWhile_suffix _

theorem progresses_run (c : τ → Bool) : Progresses (run c : Parser τ (List τ)) :=
  (progresses_satisfy c).bind fun _ => (shortens_span c).bind fun _ => shortens_pure _

/-- One after the other, what `R` relates, down to the last rest. -/
inductive Many (R : List τ → α → List τ → Prop) : List τ → List α → List τ → Prop
  | nil {s : List τ} : Many R s [] s
  | cons {s mid rest : List τ} {a : α} {as : List α} :
      R s a mid → Many R mid as rest → Many R s (a :: as) rest

namespace Many

variable {R S : List τ → α → List τ → Prop} {as : List α}

theorem imp (h : Many R s as rest) (hRS : ∀ {s a rest}, R s a rest → S s a rest) :
    Many S s as rest := by
  induction h with
  | nil => exact nil
  | cons ha _ ih => exact cons (hRS ha) ih

theorem append {mid : List τ} {bs : List α} (h : Many R s as mid) (h' : Many R mid bs rest) :
    Many R s (as ++ bs) rest := by
  induction h with
  | nil => exact h'
  | cons ha _ ih => exact cons ha (ih h')

theorem followed {F : List τ → Prop} (h : Many R s as rest)
    (hstart : ∀ {s a rest}, R s a rest → F s) (hend : F rest) :
    Many (fun s a rest => R s a rest ∧ F rest) s as rest := by
  induction h with
  | nil => exact nil
  | cons ha hrest ih =>
    refine cons ⟨ha, ?_⟩ (ih hend)
    cases hrest with
    | nil => exact hend
    | cons hb _ => exact hstart hb

theorem map (g : List τ → List τ) (h : Many R s as rest)
    (hRS : ∀ {s a rest}, R s a rest → S (g s) a (g rest)) : Many S (g s) as (g rest) := by
  induction h with
  | nil => exact nil
  | cons ha _ ih => exact cons (hRS ha) ih

end Many

section Repetition

variable {bound : List τ} {b : τ} {as : List α}

theorem manyWithin_of_eq_none (h : p s = none) : manyWithin p (b :: bound) s = some ([], s) := by
  rw [manyWithin, bind_of_eq_some (optional_of_eq_none h)]
  rfl

theorem manyWithin_of_eq_some {a : α} (h : p s = some (a, rest)) :
    manyWithin p (b :: bound) s = (manyWithin p bound rest).map fun r => (a :: r.1, r.2) := by
  rw [manyWithin, bind_of_eq_some (optional_of_eq_some h)]
  change (manyWithin p bound rest).bind _ = _
  cases manyWithin p bound rest <;> rfl

theorem many_of_manyWithin (h : manyWithin p bound s = some (as, rest)) :
    Many (fun s a rest => p s = some (a, rest)) s as rest := by
  induction bound generalizing s as with
  | nil =>
    obtain ⟨rfl, rfl⟩ := Prod.mk.inj (pure_eq_some.mp h)
    exact .nil
  | cons b bound ih =>
    cases hp : p s with
    | none =>
      rw [manyWithin_of_eq_none hp] at h
      cases h
      exact .nil
    | some r =>
      obtain ⟨a, mid⟩ := r
      rw [manyWithin_of_eq_some hp, Option.map_eq_some_iff] at h
      obtain ⟨⟨as', rest'⟩, hm, he⟩ := h
      cases he
      exact .cons hp (ih hm)

theorem manyWithin_of_many (hp : Progresses p)
    (h : Many (fun s a rest => p s = some (a, rest)) s as rest) (hend : p rest = none)
    (hs : s.length ≤ bound.length) : manyWithin p bound s = some (as, rest) := by
  induction h generalizing bound with
  | @nil s =>
    cases bound with
    | nil =>
      obtain rfl : s = [] := List.length_eq_zero_iff.mp (Nat.le_zero.mp hs)
      rfl
    | cons b bound => exact manyWithin_of_eq_none hend
  | cons ha hrest ih =>
    have hlt := (hp ha).2
    cases bound with
    | nil => exact absurd (Nat.lt_of_lt_of_le hlt hs) (Nat.not_lt_zero _)
    | cons b bound =>
      have hle := Nat.le_of_lt_succ (Nat.lt_of_lt_of_le hlt hs)
      rw [manyWithin_of_eq_some ha, ih hend hle]
      rfl

end Repetition

theorem Shortens.many (hp : Shortens p) : Shortens (many p) := by
  intro s as rest h
  have hmany := many_of_manyWithin h
  clear h
  induction hmany with
  | nil => exact List.suffix_rfl
  | cons ha _ ih => exact ih.trans (hp ha)

theorem Progresses.exists_manyWithin_eq (hp : Progresses p) {bound : List τ}
    (hs : s.length ≤ bound.length) :
    ∃ as rest, manyWithin p bound s = some (as, rest) ∧ p rest = none := by
  induction bound generalizing s with
  | nil =>
    obtain rfl : s = [] := List.length_eq_zero_iff.mp (Nat.le_zero.mp hs)
    refine ⟨[], [], rfl, ?_⟩
    match h : p [] with
    | none => rfl
    | some (a, rest) => exact absurd (hp h).2 (Nat.not_lt_zero _)
  | cons b bound ih =>
    match h : p s with
    | none => exact ⟨[], s, manyWithin_of_eq_none h, h⟩
    | some (a, rest) =>
      have hr : rest.length ≤ bound.length := by
        have := (hp h).2
        rw [List.length_cons] at hs; omega
      obtain ⟨as, rest', he, hn⟩ := ih hr
      refine ⟨a :: as, rest', ?_, hn⟩
      rw [manyWithin_of_eq_some h, he, Option.map_some]

theorem Progresses.exists_many_eq (hp : Progresses p) (s : List τ) :
    ∃ as rest, many p s = some (as, rest) ∧ p rest = none :=
  hp.exists_manyWithin_eq (Nat.le_refl _)

theorem Progresses.many_eq_some_iff (hp : Progresses p) {as : List α} :
    many p s = some (as, rest) ↔
      Many (fun s a rest => p s = some (a, rest)) s as rest ∧ p rest = none := by
  constructor
  · intro h
    obtain ⟨as', rest', he, hn⟩ := hp.exists_many_eq s
    rw [h] at he
    cases he
    exact ⟨many_of_manyWithin h, hn⟩
  · rintro ⟨h, hn⟩
    exact manyWithin_of_many hp h hn (Nat.le_refl _)

theorem Progresses.many1 (hp : Progresses p) : Progresses (many1 p) :=
  hp.bind fun _ => hp.shortens.many.bind fun _ => shortens_pure _

theorem Progresses.sepBy1 {sep : Parser τ β} (hp : Progresses p) (hsep : Shortens sep) :
    Progresses (sepBy1 sep p) :=
  hp.bind fun _ => (hsep.bind fun _ => hp.shortens).many.bind fun _ => shortens_pure _

end MailSearch.Parser
