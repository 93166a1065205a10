import MailSearch.Parser

/-! # Laws of parsers

What sequencing, choice and the reading of single symbols do on a given input.
-/

namespace MailSearch.Parser

variable {τ α β : Type} {p q : Parser τ α} {f : α → Parser τ β} {s rest : List τ} {a : α}

theorem bind_of_eq_some (h : p s = some (a, rest)) : (p >>= f) s = f a rest := by
  change (p s).bind _ = _
  rw [h]
  rfl

theorem bind_of_eq_none (h : p s = none) : (p >>= f) s = none := by
  change (p s).bind _ = _
  rw [h]
  rfl

theorem bind_eq_some {r : β × List τ} :
    (p >>= f) s = some r ↔ ∃ a rest, p s = some (a, rest) ∧ f a rest = some r := by
  constructor
  · intro h
    cases hp : p s with
    | none => rw [bind_of_eq_none hp] at h; cases h
    | some r' =>
      rw [bind_of_eq_some hp] at h
      exact ⟨_, _, rfl, h⟩
  · rintro ⟨a, rest, hp, hf⟩
    rw [bind_of_eq_some hp, hf]

theorem pure_eq_some {r : α × List τ} : (pure a : Parser τ α) s = some r ↔ r = (a, s) := by
  change some (a, s) = some r ↔ _
  rw [Option.some.injEq, eq_comm]

theorem orElse_of_eq_some {r : α × List τ} (h : p s = some r) : (p <|> q) s = some r := by
  change (p s <|> q s) = _
  rw [h]
  rfl

theorem orElse_of_eq_none (h : p s = none) : (p <|> q) s = q s := by
  change (p s <|> q s) = _
  rw [h]
  rfl

theorem orElse_eq_some {r : α × List τ} :
    (p <|> q) s = some r ↔ p s = some r ∨ p s = none ∧ q s = some r := by
  cases h : p s with
  | none => simp [orElse_of_eq_none h]
  | some r' => simp [orElse_of_eq_some h]

theorem orElse_eq_none : (p <|> q) s = none ↔ p s = none ∧ q s = none := by
  cases h : p s with
  | none => simp [orElse_of_eq_none h]
  | some r => simp [orElse_of_eq_some h]

theorem map_eq_some {g : α → β} {r : β × List τ} :
    (g <$> p) s = some r ↔ ∃ a rest, p s = some (a, rest) ∧ r = (g a, rest) := by
  change (p >>= fun a => pure (g a)) s = _ ↔ _
  simp only [bind_eq_some, pure_eq_some]

theorem bind_pure_eq_none {g : α → β} :
    (p >>= fun a => pure (g a)) s = none ↔ p s = none := by
  cases h : p s with
  | none => simp [bind_of_eq_none h]
  | some r =>
    rw [bind_of_eq_some h]
    exact iff_of_false (Option.some_ne_none _) (Option.some_ne_none _)

theorem map_eq_none {g : α → β} : (g <$> p) s = none ↔ p s = none :=
  bind_pure_eq_none

theorem optional_of_eq_some (h : p s = some (a, rest)) : optional p s = some (some a, rest) :=
  orElse_of_eq_some (map_eq_some.mpr ⟨a, rest, h, rfl⟩)

theorem optional_of_eq_none (h : p s = none) : optional p s = some (none, s) :=
  orElse_of_eq_none (map_eq_none.mpr h)

theorem optional_eq_some {o : Option α} :
    optional p s = some (o, rest) ↔
      (∃ a, p s = some (a, rest) ∧ o = some a) ∨ p s = none ∧ o = none ∧ rest = s := by
  constructor
  · intro ho
    rcases orElse_eq_some.mp ho with ho | ⟨hn, ho⟩
    · obtain ⟨a, rest, ha, he⟩ := map_eq_some.mp ho
      cases he
      exact .inl ⟨a, ha, rfl⟩
    · cases pure_eq_some.mp ho
      exact .inr ⟨map_eq_none.mp hn, rfl, rfl⟩
  · rintro (⟨a, ha, rfl⟩ | ⟨hn, rfl, rfl⟩)
    · exact optional_of_eq_some ha
    · exact optional_of_eq_none hn

theorem satisfy_eq_some {c : τ → Bool} {b : τ} :
    (satisfy c : Parser τ τ) s = some (b, rest) ↔ c b = true ∧ s = b :: rest := by
  cases s with
  | nil => simp [satisfy]
  | cons x s =>
    rw [satisfy]
    split <;> simp <;> grind

theorem span_append {c : τ → Bool} {v : List τ} (hv : ∀ b ∈ v, c b = true)
    (hrest : ∀ b ∈ rest.head?, c b = false) :
    (v ++ rest).takeWhile c = v ∧ (v ++ rest).dropWhile c = rest := by
  rw [List.takeWhile_append_of_pos hv, List.dropWhile_append_of_pos hv]
  cases rest with
  | nil => exact ⟨List.append_nil v, rfl⟩
  | cons b rest =>
    have hb : ¬ c b = true := ne_true_of_eq_false (hrest b rfl)
    rw [List.takeWhile_cons_of_neg hb, List.dropWhile_cons_of_neg hb, List.append_nil]
    exact ⟨rfl, rfl⟩

theorem append_of_span {c : τ → Bool} {v : List τ}
    (h : (span c : Parser τ (List τ)) s = some (v, rest)) :
    s = v ++ rest ∧ ∀ b ∈ v, c b = true := by
  cases h
  exact ⟨List.takeWhile_append_dropWhile.symm, List.all_eq_true.mp List.all_takeWhile⟩

theorem symbol_eq_some [BEq τ] [LawfulBEq τ] {b : τ} {r : Unit × List τ} :
    (symbol b : Parser τ Unit) s = some r ↔ s = b :: r.2 := by
  simp only [symbol, bind_eq_some, satisfy_eq_some, pure_eq_some, beq_iff_eq]
  constructor
  · rintro ⟨_, _, ⟨rfl, rfl⟩, rfl⟩
    rfl
  · intro h
    exact ⟨b, r.2, ⟨rfl, h⟩, rfl⟩

end MailSearch.Parser
