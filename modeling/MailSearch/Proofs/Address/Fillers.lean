import MailSearch.Proofs.Address.Comments

/-! # Fillers

A filler is skipped as far as it goes. Texts which differ by a filler at their front are one and the
same text after it, wherever a derivation puts the border between two fillers.
-/

namespace MailSearch.Grammar

open MailSearch.Address

variable {s mid rest rest' v : Bytes} {b : UInt8}

/-- No filler is at the front. -/
def Settled (s : Bytes) : Prop :=
  (∀ b ∈ s.head?, isSpace b = false) ∧ ∀ a rest, s = '('.toUInt8 :: a → ¬ CommentBody a rest

theorem settled_nil : Settled [] := by
  constructor
  · rintro b ⟨⟩
  · rintro a rest ⟨⟩

def opensFiller (b : UInt8) : Bool := isSpace b || b == '('.toUInt8

theorem settled_cons (hb : opensFiller b = false) : Settled (b :: s) := by
  obtain ⟨hspace, hopen⟩ := Bool.or_eq_false_iff.mp hb
  constructor
  · rintro b' ⟨⟩
    exact hspace
  · intro a rest ha
    exact absurd (List.cons.inj ha).1 (beq_eq_false_iff_ne.mp hopen)

namespace Filler

theorem trans (h : Filler s mid) (h' : Filler mid rest) : Filler s rest := by
  induction h with
  | nil => exact h'
  | space hb _ ih => exact space hb (ih h')
  | comment hc _ ih => exact comment hc (ih h')

theorem of_spaces (hv : ∀ b ∈ v, isSpace b = true) : Filler (v ++ s) s := by
  induction v with
  | nil => exact nil
  | cons b v ih =>
    obtain ⟨hb, hv⟩ := List.forall_mem_cons.mp hv
    exact space hb (ih hv)

theorem unique (h : Filler s rest) (hrest : Settled rest) (h' : Filler s rest')
    (hrest' : Settled rest') : rest = rest' := by
  induction h with
  | nil =>
    cases h' with
    | nil => rfl
    | space hb _ => exact absurd hb (by simp [hrest.1 _ rfl])
    | comment hc _ => exact absurd hc (hrest.2 _ _ rfl)
  | @space b s rest hb _ ih =>
    generalize ht : b :: s = t at h'
    cases h' with
    | nil =>
      subst ht
      exact absurd hb (by simp [hrest'.1 _ rfl])
    | space _ h' =>
      obtain ⟨-, rfl⟩ := List.cons.inj ht
      exact ih hrest h'
    | comment _ _ =>
      obtain ⟨rfl, -⟩ := List.cons.inj ht
      exact absurd hb (by decide)
  | @comment s mid rest hc _ ih =>
    generalize ht : '('.toUInt8 :: s = t at h'
    cases h' with
    | nil => exact absurd hc (hrest'.2 _ _ ht.symm)
    | space hb _ =>
      obtain ⟨rfl, -⟩ := List.cons.inj ht
      exact absurd hb (by decide)
    | comment hc' h' =>
      obtain ⟨-, rfl⟩ := List.cons.inj ht
      obtain rfl := hc.unique hc'
      exact ih hrest h'

end Filler

end MailSearch.Grammar

namespace MailSearch.Address

open MailSearch.Parser Grammar

variable {s rest bound : Bytes} {b : UInt8} {α β : Type}

theorem filler_of_pieces {us : List Unit}
    (h : Many (fun s u mid => fillerPiece bound s = some (u, mid)) s us rest) :
    Filler s rest := by
  induction h with
  | nil => exact .nil
  | cons hp _ ih =>
    refine Filler.trans ?_ ih
    rcases orElse_eq_some.mp hp with hp | ⟨-, hp⟩
    · obtain ⟨v, mid, hv, he⟩ := bind_eq_some.mp hp
      cases pure_eq_some.mp he
      obtain ⟨⟨blanks, rfl, -, hall, -⟩, -⟩ := blank_eq_some.mp hv
      exact .of_spaces hall
    · obtain ⟨a, rfl, ha⟩ := comment_sound hp
      exact .comment ha .nil

theorem settled_of_fillerPiece (h : fillerPiece bound s = none) (hs : s.length ≤ bound.length) :
    Settled s := by
  obtain ⟨hblank, hcomment⟩ := orElse_eq_none.mp h
  constructor
  · intro b hb
    obtain ⟨t, rfl⟩ := List.head?_eq_some_iff.mp hb
    cases hspace : isSpace b with
    | false => rfl
    | true =>
      have hrun := bind_pure_eq_none.mp (bind_pure_eq_none.mp hblank)
      exact absurd hrun (run_ne_none hspace)
  · rintro a rest rfl hc
    rw [comment_complete hc hs] at hcomment
    cases hcomment

theorem exists_filler (s : Bytes) :
    ∃ rest, (filler : ByteParser Unit) s = some ((), rest) ∧ Filler s rest ∧ Settled rest := by
  obtain ⟨us, rest, hmany, hstop⟩ := (progresses_fillerPiece s).exists_many_eq s
  refine ⟨rest, ?_, filler_of_pieces (many_of_manyWithin hmany), ?_⟩
  · rw [filler_eq, bind_of_eq_some hmany]
    rfl
  · exact settled_of_fillerPiece hstop ((progresses_fillerPiece s).shortens.many hmany).length_le

/-- The text after a filler at its front. -/
def skip (s : Bytes) : Bytes := ((filler : ByteParser Unit) s).elim s Prod.snd

theorem filler_eq_skip (s : Bytes) : (filler : ByteParser Unit) s = some ((), skip s) := by
  obtain ⟨rest, h, -, -⟩ := exists_filler s
  rw [skip, h]
  rfl

theorem filler_skip (s : Bytes) : Filler s (skip s) := by
  obtain ⟨rest, h, hf, -⟩ := exists_filler s
  rwa [skip, h]

theorem settled_skip (s : Bytes) : Settled (skip s) := by
  obtain ⟨rest, h, -, hr⟩ := exists_filler s
  rwa [skip, h]

theorem skip_eq_of_filler (h : Filler s rest) : skip s = skip rest :=
  (filler_skip s).unique (settled_skip s) (h.trans (filler_skip rest)) (settled_skip rest)

theorem skip_eq_self (h : Settled s) : skip s = s :=
  (filler_skip s).unique (settled_skip s) .nil h

@[simp] theorem skip_skip (s : Bytes) : skip (skip s) = skip s := skip_eq_self (settled_skip s)

@[simp] theorem skip_nil : skip [] = [] := skip_eq_self settled_nil

theorem skip_cons (hb : opensFiller b = false) : skip (b :: s) = b :: s :=
  skip_eq_self (settled_cons hb)

theorem filler_eq_some {r : Unit × Bytes} :
    (filler : ByteParser Unit) s = some r ↔ r.2 = skip s := by
  rw [filler_eq_skip, Option.some.injEq, Prod.ext_iff]
  exact ⟨fun h => h.2.symm, fun h => ⟨rfl, h.symm⟩⟩

theorem filler_bind (f : Unit → ByteParser α) : (filler >>= f) s = f () (skip s) :=
  bind_of_eq_some (filler_eq_skip s)

theorem shortens_filler : Shortens (filler : ByteParser Unit) := by
  intro s u rest h
  rw [filler_eq] at h
  exact ((progresses_fillerPiece s).shortens.many.bind fun _ => shortens_pure ()) h

/-- A parser that starts with a filler. -/
def Leads (p : ByteParser α) : Prop := ∀ s, p (skip s) = p s

variable {p q : ByteParser α} {f : α → ByteParser β}

theorem leads_filler : Leads (filler : ByteParser Unit) := by
  intro s
  rw [filler_eq_skip, filler_eq_skip, skip_skip]

theorem Leads.bind (hp : Leads p) : Leads (p >>= f) := by
  intro s
  change (p (skip s)).bind _ = (p s).bind _
  rw [hp s]

theorem Leads.orElse (hp : Leads p) (hq : Leads q) : Leads (p <|> q) := by
  intro s
  change (p (skip s) <|> q (skip s)) = (p s <|> q s)
  rw [hp s, hq s]

theorem Leads.map {g : α → β} (hp : Leads p) : Leads (g <$> p) := by
  intro s
  change (p (skip s)).bind _ = (p s).bind _
  rw [hp s]

theorem Leads.optional_bind {f : Option α → ByteParser β} (hp : Leads p) (hf : Leads (f none)) :
    Leads (optional p >>= f) := by
  intro s
  cases h : p s with
  | none =>
    rw [bind_of_eq_some (optional_of_eq_none h), bind_of_eq_some (optional_of_eq_none (hp s ▸ h)),
      hf s]
  | some r =>
    rw [bind_of_eq_some (optional_of_eq_some h), bind_of_eq_some (optional_of_eq_some (hp s ▸ h))]

end MailSearch.Address
