import MailSearch.Proofs.Parser.Repetition

/-! # Repetition as a loop

A loop that repeats a parser would never end at an occurrence that takes nothing, so a careful loop
gives up there. With a parser that progresses it has no occasion to: it ends, it never gives up, and
it finds what the bounded repetition finds.
-/

namespace MailSearch.Parser

variable {τ α β : Type}

/-- How a careful loop ends: with what it found, without a first occurrence, or stalled. -/
inductive Finish (τ α : Type)
  | found (as : List α) (rest : List τ)
  | missing
  | stalled

namespace Finish

def after (a : α) : Finish τ α → Finish τ α
  | found as rest => found (a :: as) rest
  | missing => missing
  | stalled => stalled

def ofResult : Option (List α × List τ) → Finish τ α
  | some (as, rest) => found as rest
  | none => missing

theorem stalled_ne_ofResult (r : Option (List α × List τ)) : stalled ≠ ofResult r := by
  cases r <;> nofun

end Finish

inductive Loop (p : Parser τ α) : List τ → Finish τ α → Prop
  | stop {s : List τ} : p s = none → Loop p s (.found [] s)
  | stall {s : List τ} {a : α} : p s = some (a, s) → Loop p s .stalled
  | next {s mid : List τ} {a : α} {e : Finish τ α} : p s = some (a, mid) → mid ≠ s →
      Loop p mid e → Loop p s (e.after a)

inductive Loop1 (p : Parser τ α) : List τ → Finish τ α → Prop
  | missing {s : List τ} : p s = none → Loop1 p s .missing
  | first {s mid : List τ} {a : α} {e : Finish τ α} : p s = some (a, mid) → Loop p mid e →
      Loop1 p s (e.after a)

/-- A separator without an occurrence after it is given back. -/
inductive SepLoop (sep : Parser τ β) (p : Parser τ α) : List τ → Finish τ α → Prop
  | stop {s : List τ} : sep s = none → SepLoop sep p s (.found [] s)
  | sepStall {s : List τ} {b : β} : sep s = some (b, s) → SepLoop sep p s .stalled
  | back {s mid : List τ} {b : β} : sep s = some (b, mid) → mid ≠ s → p mid = none →
      SepLoop sep p s (.found [] s)
  | stall {s mid : List τ} {a : α} {b : β} : sep s = some (b, mid) → mid ≠ s →
      p mid = some (a, s) → SepLoop sep p s .stalled
  | next {s mid rest : List τ} {a : α} {b : β} {e : Finish τ α} : sep s = some (b, mid) → mid ≠ s →
      p mid = some (a, rest) → rest ≠ s → SepLoop sep p rest e → SepLoop sep p s (e.after a)

inductive SepLoop1 (sep : Parser τ β) (p : Parser τ α) : List τ → Finish τ α → Prop
  | missing {s : List τ} : p s = none → SepLoop1 sep p s .missing
  | stall {s : List τ} {a : α} : p s = some (a, s) → SepLoop1 sep p s .stalled
  | first {s mid : List τ} {a : α} {e : Finish τ α} : p s = some (a, mid) → mid ≠ s →
      SepLoop sep p mid e → SepLoop1 sep p s (e.after a)

/-- Loops over the parser end, never stall, and find what its repetitions find. -/
structure Repeatable (p : Parser τ α) : Prop where
  progresses : Progresses p
  ends : ∀ s, ∃ as rest, many p s = some (as, rest) ∧ ∀ e, Loop p s e ↔ e = .found as rest
  ends1 : ∀ s e, Loop1 p s e ↔ e = .ofResult (many1 p s)
  never_stalls : ∀ s, ¬ Loop p s .stalled ∧ ¬ Loop1 p s .stalled

structure Listable (sep : Parser τ β) (p : Parser τ α) : Prop where
  separator_progresses : Progresses sep
  progresses : Progresses p
  ends : ∀ s e, SepLoop1 sep p s e ↔ e = .ofResult (sepBy1 sep p s)
  never_stalls : ∀ s, ¬ SepLoop1 sep p s .stalled

variable {p : Parser τ α} {sep : Parser τ β} {s mid rest : List τ} {a : α} {b : β}
  {e : Finish τ α}

theorem Progresses.ne (hp : Progresses p) (h : p s = some (a, rest)) : rest ≠ s := by
  rintro rfl
  exact Nat.lt_irrefl _ (hp h).2

theorem Progresses.many_of_eq_none (hp : Progresses p) (h : p s = none) :
    many p s = some ([], s) :=
  hp.many_eq_some_iff.mpr ⟨.nil, h⟩

theorem Progresses.ofResult_many (hp : Progresses p) (h : p s = some (a, mid)) :
    Finish.ofResult (many p s) = (Finish.ofResult (many p mid)).after a := by
  obtain ⟨as, rest, hmid, hstop⟩ := hp.exists_many_eq mid
  have hmany := many_of_manyWithin hmid
  have hs : many p s = some (a :: as, rest) := hp.many_eq_some_iff.mpr ⟨.cons h hmany, hstop⟩
  rw [hs, hmid]
  rfl

theorem Progresses.loop_sound (hp : Progresses p) (h : Loop p s e) :
    e = .ofResult (many p s) := by
  induction h with
  | stop hnone =>
    rw [hp.many_of_eq_none hnone]
    rfl
  | stall hsome => exact absurd rfl (hp.ne hsome)
  | next hsome _ _ ih => rw [hp.ofResult_many hsome, ← ih]

/-- The text gets shorter each time around. -/
theorem Progresses.exists_loop (hp : Progresses p) (s : List τ) : ∃ e, Loop p s e := by
  induction hl : s.length using Nat.strongRecOn generalizing s with
  | ind l ih =>
    cases hs : p s with
    | none => exact ⟨_, .stop hs⟩
    | some r =>
      obtain ⟨a, mid⟩ := r
      obtain ⟨e, he⟩ := ih mid.length (hl ▸ (hp hs).2) mid rfl
      exact ⟨_, .next hs (hp.ne hs) he⟩

theorem Progresses.loop_iff (hp : Progresses p) : Loop p s e ↔ e = .ofResult (many p s) := by
  constructor
  · exact hp.loop_sound
  · rintro rfl
    obtain ⟨e, he⟩ := hp.exists_loop s
    exact hp.loop_sound he ▸ he

theorem eq_ofResult_first_iff {q : Parser τ α} :
    e = .ofResult ((do let a ← p; let as ← many q; return a :: as) s) ↔
      p s = none ∧ e = .missing ∨
        ∃ a mid, p s = some (a, mid) ∧ e = (Finish.ofResult (many q mid)).after a := by
  cases hs : p s with
  | none =>
    rw [bind_of_eq_none hs]
    simp [Finish.ofResult]
  | some r =>
    obtain ⟨a, mid⟩ := r
    have hq : Finish.ofResult ((do let as ← many q; return a :: as) mid) =
        (Finish.ofResult (many q mid)).after a := by
      cases hm : many q mid with
      | none =>
        rw [bind_of_eq_none hm]
        rfl
      | some r =>
        rw [bind_of_eq_some hm]
        rfl
    rw [bind_of_eq_some hs, hq]
    constructor
    · exact fun he => .inr ⟨a, mid, rfl, he⟩
    · rintro (⟨⟨⟩, -⟩ | ⟨_, _, ⟨⟩, he⟩)
      exact he

theorem Progresses.loop1_iff (hp : Progresses p) :
    Loop1 p s e ↔ e = .ofResult (Parser.many1 p s) := by
  refine Iff.trans ?_ eq_ofResult_first_iff.symm
  constructor
  · rintro (hnone | ⟨hsome, hloop⟩)
    · exact .inl ⟨hnone, rfl⟩
    · refine .inr ⟨_, _, hsome, ?_⟩
      rw [← hp.loop_iff.mp hloop]
  · rintro (⟨hnone, rfl⟩ | ⟨a, mid, hsome, rfl⟩)
    · exact .missing hnone
    · exact .first hsome (hp.loop_iff.mpr rfl)

theorem Progresses.sepLoop_iff_loop (hp : Progresses p) (hsep : Progresses sep) :
    SepLoop sep p s e ↔ Loop (do let _ ← sep; p) s e := by
  have hboth : Progresses (do let _ ← sep; p) := hsep.bind fun _ => hp.shortens
  constructor
  · intro h
    induction h with
    | stop hnone => exact .stop (bind_of_eq_none hnone)
    | sepStall hstall => exact absurd rfl (hsep.ne hstall)
    | back hmid _ hnone => exact .stop ((bind_of_eq_some hmid).trans hnone)
    | stall hmid _ hstall =>
      exact absurd rfl (hboth.ne ((bind_of_eq_some hmid).trans hstall))
    | next hmid _ hrest hne _ ih => exact .next ((bind_of_eq_some hmid).trans hrest) hne ih
  · intro h
    induction h with
    | @stop s hnone =>
      cases hs : sep s with
      | none => exact .stop hs
      | some r =>
        obtain ⟨b, mid⟩ := r
        exact .back hs (hsep.ne hs) ((bind_of_eq_some hs).symm.trans hnone)
    | stall hstall => exact absurd rfl (hboth.ne hstall)
    | next hrest hne _ ih =>
      obtain ⟨b, mid, hmid, ha⟩ := bind_eq_some.mp hrest
      exact .next hmid (hsep.ne hmid) ha hne ih

theorem Progresses.sepLoop1_iff (hp : Progresses p) (hsep : Progresses sep) :
    SepLoop1 sep p s e ↔ e = .ofResult (Parser.sepBy1 sep p s) := by
  have hboth : Progresses (do let _ ← sep; p) := hsep.bind fun _ => hp.shortens
  refine Iff.trans ?_ eq_ofResult_first_iff.symm
  constructor
  · rintro (hnone | hstall | ⟨hsome, -, hloop⟩)
    · exact .inl ⟨hnone, rfl⟩
    · exact absurd rfl (hp.ne hstall)
    · refine .inr ⟨_, _, hsome, ?_⟩
      rw [← hboth.loop_iff.mp ((hp.sepLoop_iff_loop hsep).mp hloop)]
  · rintro (⟨hnone, rfl⟩ | ⟨a, mid, hsome, rfl⟩)
    · exact .missing hnone
    · exact .first hsome (hp.ne hsome)
        ((hp.sepLoop_iff_loop hsep).mpr (hboth.loop_iff.mpr rfl))

theorem Progresses.repeatable (hp : Progresses p) : Repeatable p where
  progresses := hp
  ends s := by
    obtain ⟨as, rest, hmany, -⟩ := hp.exists_many_eq s
    refine ⟨as, rest, hmany, fun e => ?_⟩
    rw [hp.loop_iff, hmany]
    rfl
  ends1 _ _ := hp.loop1_iff
  never_stalls _ :=
    ⟨fun h => Finish.stalled_ne_ofResult _ (hp.loop_iff.mp h),
      fun h => Finish.stalled_ne_ofResult _ (hp.loop1_iff.mp h)⟩

theorem Progresses.listable (hp : Progresses p) (hsep : Progresses sep) : Listable sep p where
  separator_progresses := hsep
  progresses := hp
  ends _ _ := hp.sepLoop1_iff hsep
  never_stalls _ h := Finish.stalled_ne_ofResult _ ((hp.sepLoop1_iff hsep).mp h)

end MailSearch.Parser
