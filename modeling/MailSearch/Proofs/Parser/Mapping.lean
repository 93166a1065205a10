import MailSearch.Proofs.Parser.Laws

/-! # Parsers under a change of symbols

Where a parser does not tell a symbol from what it is changed to, a change of all symbols changes
the value and the rest, and nothing else. It is enough to know this of the classes of symbols: every
combinator hands it on.
-/

namespace MailSearch.Parser

variable {τ α β γ δ : Type} {f : τ → τ} {g : α → β} {h : γ → δ}

/-- On changed symbols `q` finds and leaves what `p` does on the others, changed by `g`. -/
def Carries (f : τ → τ) (g : α → β) (p : Parser τ α) (q : Parser τ β) : Prop :=
  ∀ s, q (s.map f) = (p s).map (Prod.map g (List.map f))

namespace Carries

variable {p p' : Parser τ α} {q q' : Parser τ β}

theorem pure (a : α) : Carries f g (pure a) (pure (g a)) := fun _ => rfl

theorem bind {k : α → Parser τ γ} {k' : β → Parser τ δ} (hp : Carries f g p q)
    (hk : ∀ a, Carries f h (k a) (k' (g a))) : Carries f h (p >>= k) (q >>= k') := by
  intro s
  have hs := hp s
  cases hr : p s with
  | none =>
    rw [hr] at hs
    rw [bind_of_eq_none hr, bind_of_eq_none hs]
    rfl
  | some r =>
    obtain ⟨a, rest⟩ := r
    rw [hr] at hs
    rw [bind_of_eq_some hr, bind_of_eq_some hs]
    exact hk a rest

theorem map {u : α → γ} {v : β → δ} (hp : Carries f g p q) (huv : ∀ a, v (g a) = h (u a)) :
    Carries f h (u <$> p) (v <$> q) := by
  change Carries f h (p >>= fun a => Pure.pure (u a)) (q >>= fun b => Pure.pure (v b))
  refine hp.bind fun a => ?_
  rw [huv]
  exact pure (u a)

theorem failure : Carries f g failure failure := fun _ => rfl

theorem orElse (hp : Carries f g p q) (hp' : Carries f g p' q') :
    Carries f g (p <|> p') (q <|> q') := by
  intro s
  have hs := hp s
  cases hr : p s with
  | none =>
    rw [hr] at hs
    rw [orElse_of_eq_none hr, orElse_of_eq_none hs]
    exact hp' s
  | some r =>
    rw [hr] at hs
    rw [orElse_of_eq_some hr, orElse_of_eq_some hs]
    rfl

theorem optional (hp : Carries f g p q) : Carries f (Option.map g) (optional p) (optional q) := by
  have hsome : Carries f (Option.map g) (some <$> p) (some <$> q) := hp.map fun _ => rfl
  exact hsome.orElse (pure none)

theorem satisfy {c : τ → Bool} (hc : ∀ a, c (f a) = c a) :
    Carries f f (satisfy c) (satisfy c) := by
  rintro (_ | ⟨a, s⟩)
  · rfl
  · rw [List.map_cons, Parser.satisfy, Parser.satisfy, hc]
    split <;> rfl

theorem symbol [BEq τ] {b : τ} (hb : ∀ a, (f a == b) = (a == b)) :
    Carries f id (symbol b) (symbol b) :=
  (satisfy hb).bind fun _ => pure ()

theorem span {c : τ → Bool} (hc : ∀ a, c (f a) = c a) :
    Carries f (List.map f) (span c) (span c) := by
  intro s
  have hcf : c ∘ f = c := funext hc
  change some _ = some _
  rw [List.takeWhile_map, List.dropWhile_map, hcf]
  rfl

theorem run {c : τ → Bool} (hc : ∀ a, c (f a) = c a) : Carries f (List.map f) (run c) (run c) :=
  (satisfy hc).bind fun a => (span hc).bind fun as => pure (a :: as)

theorem get : Carries f (List.map f) get get := fun _ => rfl

theorem manyWithin (hp : Carries f g p q) (bound : List τ) :
    Carries f (List.map g) (manyWithin p bound) (manyWithin q (bound.map f)) := by
  induction bound with
  | nil => exact pure []
  | cons b bound ih =>
    rw [List.map_cons, Parser.manyWithin, Parser.manyWithin]
    refine hp.optional.bind ?_
    rintro (_ | a)
    · exact pure []
    · exact ih.bind fun as => pure (a :: as)

theorem many (hp : Carries f g p q) : Carries f (List.map g) (many p) (many q) :=
  fun s => hp.manyWithin s s

theorem many1 (hp : Carries f g p q) : Carries f (List.map g) (many1 p) (many1 q) :=
  hp.bind fun a => hp.many.bind fun as => pure (a :: as)

theorem sepBy1 {sep : Parser τ γ} {sep' : Parser τ δ} (hsep : Carries f h sep sep')
    (hp : Carries f g p q) : Carries f (List.map g) (sepBy1 sep p) (sepBy1 sep' q) :=
  hp.bind fun a => (hsep.bind fun _ => hp).many.bind fun as => pure (a :: as)

theorem parseAll (hp : Carries f g p q) (s : List τ) :
    parseAll q (s.map f) = (parseAll p s).map g := by
  rw [Parser.parseAll, Parser.parseAll, hp s]
  cases p s with
  | none => rfl
  | some r =>
    obtain ⟨a, rest⟩ := r
    cases rest <;> rfl

end Carries

end MailSearch.Parser
