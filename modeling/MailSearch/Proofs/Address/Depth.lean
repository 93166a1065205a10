import MailSearch.Proofs.Parser.Laws
import MailSearch.Address.Lexical

/-! # How deep a parser goes

A probe is a computation in `Option` that also tells how many levels it went down, in alternatives
that were given up as well as in the one that was taken. The depth of a parser is compared with that
of a scan of the text, byte by byte, which is told where quoted text and domain literals begin.
-/

namespace MailSearch

/-- An outcome, and the greatest number of levels that were open at once. -/
structure Probe (α : Type) where
  value? : Option α
  depth : Nat

namespace Probe

variable {α β : Type} {x y : Probe α} {f : α → Probe β} {a : α}

instance : Monad Probe where
  pure a := ⟨some a, 0⟩
  bind x f :=
    match x.value? with
    | none => ⟨none, x.depth⟩
    | some a => ⟨(f a).value?, max x.depth (f a).depth⟩

instance : Attempt Probe where
  failure := ⟨none, 0⟩
  orElse x y :=
    match x.value? with
    | none => ⟨(y ()).value?, max x.depth (y ()).depth⟩
    | some a => ⟨some a, x.depth⟩
  deeper x := ⟨x.value?, x.depth + 1⟩

theorem bind_of_eq_none (h : x.value? = none) : x >>= f = ⟨none, x.depth⟩ := by
  change (match x.value? with | none => _ | some a => _) = _
  rw [h]

theorem bind_of_eq_some (h : x.value? = some a) :
    x >>= f = ⟨(f a).value?, max x.depth (f a).depth⟩ := by
  change (match x.value? with | none => _ | some a => _) = _
  rw [h]

theorem orElse_of_eq_none (h : x.value? = none) :
    (x <|> y) = ⟨y.value?, max x.depth y.depth⟩ := by
  change (match x.value? with | none => _ | some a => _) = _
  rw [h]

theorem orElse_of_eq_some (h : x.value? = some a) : (x <|> y) = ⟨some a, x.depth⟩ := by
  change (match x.value? with | none => _ | some a => _) = _
  rw [h]

end Probe

namespace Address

/-- Where a scan stands: how many comments are open, what closes the text that is, and whether the
next byte is escaped. -/
structure Place where
  depth : Nat
  closer : Option UInt8
  escaped : Bool

namespace Place

def inside (depth : Nat) : Place := ⟨depth, none, false⟩

def upTo (closer : UInt8) : Place := ⟨0, some closer, false⟩

def next (p : Place) (b : UInt8) : Place :=
  if p.escaped then { p with escaped := false }
  else if b = '\\'.toUInt8 then { p with escaped := true }
  else
    match p.closer with
    | some closer => if b = closer then { p with closer := none } else p
    | none =>
      if b = '('.toUInt8 then { p with depth := p.depth + 1 }
      else if 0 < p.depth then
        if b = ')'.toUInt8 then { p with depth := p.depth - 1 } else p
      else if b = '"'.toUInt8 then { p with closer := some '"'.toUInt8 }
      else if b = '['.toUInt8 then { p with closer := some ']'.toUInt8 }
      else p

end Place

def deepest : Place → Bytes → Nat
  | p, [] => p.depth
  | p, b :: s => max p.depth (deepest (p.next b) s)

theorem depth_le_deepest (p : Place) (s : Bytes) : p.depth ≤ deepest p s := by
  cases s with
  | nil => exact Nat.le_refl _
  | cons b s => exact Nat.le_max_left _ _

/-- The parser goes as deep as the scan finds the text that it takes, from `p` to `q`, and no deeper
where it fails. -/
structure Tracks {α : Type} (base : Nat) (p q : Place) (probed : ByteParserT Probe α)
    (parser : ByteParser α) : Prop where
  value (s : Bytes) : (probed s).value? = parser s
  le (s : Bytes) : base + (probed s).depth ≤ max base (deepest p s)
  rest {s : Bytes} {a : α} {rest : Bytes} (h : parser s = some (a, rest)) :
    deepest q rest ≤ deepest p s ∧ deepest p s ≤ max (base + (probed s).depth) (deepest q rest)

namespace Tracks

open MailSearch.Parser

variable {α β : Type} {base : Nat} {p q r : Place} {probed probed' : ByteParserT Probe α}
  {parser parser' : ByteParser α}

theorem pure (a : α) : Tracks base p p (pure a : ByteParserT Probe α) (pure a) where
  value s := rfl
  le s := Nat.le_max_left _ _
  rest h := by
    cases pure_eq_some.mp h
    exact ⟨Nat.le_refl _, Nat.le_max_right _ _⟩

theorem failure : Tracks base p q (failure : ByteParserT Probe α) failure where
  value s := rfl
  le s := Nat.le_max_left _ _
  rest h := by cases h

theorem get : Tracks base p p (get : ByteParserT Probe Bytes) get where
  value s := rfl
  le s := Nat.le_max_left _ _
  rest h := by
    cases h
    exact ⟨Nat.le_refl _, Nat.le_max_right _ _⟩

theorem bind {f : α → ByteParserT Probe β} {g : α → ByteParser β}
    (h : Tracks base p q probed parser) (hf : ∀ a, Tracks base q r (f a) (g a)) :
    Tracks base p r (probed >>= f) (parser >>= g) := by
  have hrun : ∀ s, (probed >>= f) s = probed s >>= fun x => f x.1 x.2 := fun s => rfl
  have hnone : ∀ {s}, parser s = none →
      (probed >>= f) s = ⟨none, (probed s).depth⟩ := fun {s} hp => by
    rw [hrun, Probe.bind_of_eq_none ((h.value s).trans hp)]
  have hsome : ∀ {s a t}, parser s = some (a, t) →
      (probed >>= f) s = ⟨(f a t).value?, max (probed s).depth (f a t).depth⟩ :=
    fun {s a t} hp => by rw [hrun, Probe.bind_of_eq_some ((h.value s).trans hp)]
  constructor
  · intro s
    cases hp : parser s with
    | none => rw [hnone hp, Parser.bind_of_eq_none hp]
    | some x => rw [hsome hp, Parser.bind_of_eq_some hp, (hf x.1).value x.2]
  · intro s
    have hle := h.le s
    cases hp : parser s with
    | none =>
      rw [hnone hp]
      exact hle
    | some x =>
      have hle' := (hf x.1).le x.2
      have hmid := (h.rest hp).1
      rw [hsome hp]
      dsimp only
      omega
  · intro s b rest hs
    obtain ⟨a, mid, ha, hb⟩ := bind_eq_some.mp hs
    obtain ⟨hle, hge⟩ := h.rest ha
    obtain ⟨hle', hge'⟩ := (hf a).rest hb
    rw [hsome ha]
    dsimp only
    omega

theorem orElse (h : Tracks base p q probed parser) (h' : Tracks base p q probed' parser') :
    Tracks base p q (probed <|> probed') (parser <|> parser') := by
  have hrun : ∀ s, (probed <|> probed') s = (probed s <|> probed' s) := fun s => rfl
  constructor
  · intro s
    cases hp : parser s with
    | none =>
      rw [hrun, Probe.orElse_of_eq_none ((h.value s).trans hp), Parser.orElse_of_eq_none hp]
      exact h'.value s
    | some x =>
      rw [hrun, Probe.orElse_of_eq_some ((h.value s).trans hp), Parser.orElse_of_eq_some hp]
  · intro s
    have hle := h.le s
    have hle' := h'.le s
    cases hp : parser s with
    | none =>
      rw [hrun, Probe.orElse_of_eq_none ((h.value s).trans hp)]
      dsimp only
      omega
    | some x =>
      rw [hrun, Probe.orElse_of_eq_some ((h.value s).trans hp)]
      exact hle
  · intro s a rest hs
    rcases orElse_eq_some.mp hs with hp | ⟨hp, hp'⟩
    · rw [hrun, Probe.orElse_of_eq_some ((h.value s).trans hp)]
      exact h.rest hp
    · have hrest := h'.rest hp'
      rw [hrun, Probe.orElse_of_eq_none ((h.value s).trans hp)]
      dsimp only
      omega

theorem nested (h : Tracks (base + 1) p q probed parser) (hp : base < p.depth) :
    Tracks base p q (nested probed) (nested parser) where
  value s := h.value s
  le s := by
    have hle := h.le s
    have hdepth := depth_le_deepest p s
    change base + ((probed s).depth + 1) ≤ _
    omega
  rest hs := by
    have hrest := h.rest hs
    change _ ∧ _ ≤ max (base + ((probed _).depth + 1)) _
    omega

theorem map {f : α → β} (h : Tracks base p q probed parser) :
    Tracks base p q (f <$> probed) (f <$> parser) := by
  have hbind := h.bind fun a => pure (f a)
  constructor
  · exact hbind.value
  · exact hbind.le
  · exact hbind.rest

theorem optional (h : Tracks base p p probed parser) :
    Tracks base p p (optional probed) (optional parser) :=
  h.map.orElse (pure none)

theorem manyWithin (h : Tracks base p p probed parser) (bound : Bytes) :
    Tracks base p p (manyWithin probed bound) (manyWithin parser bound) := by
  induction bound with
  | nil => exact pure []
  | cons b bound ih =>
    refine h.optional.bind fun o => ?_
    cases o with
    | none => exact pure []
    | some a => exact ih.bind fun as => pure (a :: as)

theorem many (h : Tracks base p p probed parser) :
    Tracks base p p (many probed) (many parser) where
  value s := (h.manyWithin s).value s
  le s := (h.manyWithin s).le s
  rest {s _ _} hs := (h.manyWithin s).rest hs

theorem many1 (h : Tracks base p p probed parser) :
    Tracks base p p (many1 probed) (many1 parser) :=
  h.bind fun a => h.many.bind fun as => pure (a :: as)

theorem sepBy1 {sep : ByteParserT Probe β} {sep' : ByteParser β} (hsep : Tracks base p p sep sep')
    (h : Tracks base p p probed parser) :
    Tracks base p p (sepBy1 sep probed) (sepBy1 sep' parser) :=
  h.bind fun a => (hsep.bind fun _ => h).many.bind fun as => pure (a :: as)

section Symbols

variable {c : UInt8 → Bool} (hb : p.depth ≤ base)
include hb

theorem satisfy (hc : ∀ b, c b = true → p.next b = q) :
    Tracks base p q (satisfy c) (satisfy c) := by
  have hcons : ∀ b s, (Parser.satisfy c : ByteParserT Probe UInt8) (b :: s) =
      if c b then Pure.pure (b, s) else Alternative.failure := fun b s => rfl
  constructor
  · intro s
    cases s with
    | nil => rfl
    | cons b s =>
      rw [hcons, Parser.satisfy]
      split <;> rfl
  · intro s
    have hzero : ((Parser.satisfy c : ByteParserT Probe UInt8) s).depth = 0 := by
      cases s with
      | nil => rfl
      | cons b s =>
        rw [hcons]
        split <;> rfl
    rw [hzero]
    exact Nat.le_max_left _ _
  · intro s b rest hs
    obtain ⟨hcb, rfl⟩ := satisfy_eq_some.mp hs
    rw [deepest, hc b hcb]
    omega

theorem run (hc : ∀ b, c b = true → p.next b = p) : Tracks base p p (run c) (run c) := by
  refine (satisfy hb hc).bind fun a => Tracks.bind (q := p) ?_ fun as => pure (a :: as)
  refine ⟨fun s => rfl, fun s => Nat.le_max_left _ _, fun {s as rest} hs => ?_⟩
  cases hs
  have hspan : deepest p s = max p.depth (deepest p (s.dropWhile c)) := by
    induction s with
    | nil => exact (Nat.max_self _).symm
    | cons b s ih =>
      by_cases hcb : c b = true
      · rw [List.dropWhile_cons_of_pos hcb, deepest, hc b hcb, ih]
        omega
      · have hdepth := depth_le_deepest p (b :: s)
        rw [List.dropWhile_cons_of_neg hcb]
        omega
  omega

theorem byte {ch : Char} (hc : p.next ch.toUInt8 = q) : Tracks base p q (byte ch) (byte ch) := by
  refine (satisfy hb fun b h => ?_).bind fun _ => pure ()
  rw [beq_iff_eq.mp h]
  exact hc

end Symbols

end Tracks

end Address

end MailSearch
