import MailSearch.Proofs.Address.Fillers

/-! # Comments by counting

A scan counts the parentheses that are open and lets a backslash take the byte after it. A comment
is read if and only if the scan comes back to zero, and it ends where that happens first. A filler
is the longest text made of white space and of such comments.
-/

namespace MailSearch.Address

open MailSearch.Parser Grammar

/-- How many parentheses are open, and whether a backslash takes the next byte. -/
structure Count where
  depth : Nat
  escaped : Bool

namespace Count

def next (c : Count) (b : UInt8) : Count :=
  if c.escaped then { c with escaped := false }
  else if b = '\\'.toUInt8 then { c with escaped := true }
  else if b = '('.toUInt8 then { c with depth := c.depth + 1 }
  else if b = ')'.toUInt8 then { c with depth := c.depth - 1 }
  else c

def after (c : Count) (v : Bytes) : Count := v.foldl next c

/-- The count is at zero where `rest` begins, and nowhere before. -/
def Closes (c : Count) (s rest : Bytes) : Prop :=
  ∃ v, s = v ++ rest ∧ (c.after v).depth = 0 ∧ ∀ w, w <+: v → w ≠ v → (c.after w).depth ≠ 0

end Count

def depthAfter (v : Bytes) : Nat := (Count.after ⟨0, false⟩ v).depth

/-- A text that ends where the count of open parentheses is first at zero. -/
structure IsComment (v : Bytes) : Prop where
  opens : v.head? = some '('.toUInt8
  closed : depthAfter v = 0
  first : ∀ w, w <+: v → w ≠ [] → depthAfter w = 0 → w = v

inductive FillerText : Bytes → Prop
  | nil : FillerText []
  | space {b : UInt8} {v : Bytes} : isSpace b = true → FillerText v → FillerText (b :: v)
  | comment {c v : Bytes} : IsComment c → FillerText v → FillerText (c ++ v)

/-- No white space is at the front, and a parenthesis there stays open. -/
structure FillerStops (s : Bytes) : Prop where
  space : ∀ b ∈ s.head?, isSpace b = false
  unclosed : s.head? = some '('.toUInt8 → ∀ v, v <+: s → v ≠ [] → depthAfter v ≠ 0

namespace Count

variable {c : Count} {s mid rest : Bytes} {b : UInt8} {n : Nat}

@[simp] theorem next_escaped : (⟨n, true⟩ : Count).next b = ⟨n, false⟩ := rfl

@[simp] theorem next_backslash : (⟨n, false⟩ : Count).next '\\'.toUInt8 = ⟨n, true⟩ := rfl

@[simp] theorem next_open : (⟨n, false⟩ : Count).next '('.toUInt8 = ⟨n + 1, false⟩ := rfl

@[simp] theorem next_close : (⟨n + 1, false⟩ : Count).next ')'.toUInt8 = ⟨n, false⟩ := rfl

theorem next_text (hb : isCommentText b = true ∨ isSpace b = true) :
    (⟨n, false⟩ : Count).next b = ⟨n, false⟩ := by
  obtain ⟨hclose, hpair, hopen⟩ := CommentBody.ne_of_text hb
  simp [next, hclose, hpair, hopen]

theorem closes_zero : Closes ⟨0, false⟩ s rest ↔ s = rest := by
  constructor
  · rintro ⟨v, rfl, -, hfirst⟩
    cases v with
    | nil => rfl
    | cons b v => exact absurd rfl (hfirst [] List.nil_prefix (List.cons_ne_nil b v).symm)
  · rintro rfl
    refine ⟨[], rfl, rfl, fun w hw hne => ?_⟩
    exact absurd (List.prefix_nil.mp hw) hne

theorem not_closes_nil (hc : c.depth ≠ 0) : ¬ Closes c [] rest := by
  rintro ⟨v, hv, hzero, -⟩
  obtain ⟨rfl, -⟩ := List.append_eq_nil_iff.mp hv.symm
  exact hc hzero

theorem closes_cons (hc : c.depth ≠ 0) : Closes c (b :: s) rest ↔ Closes (c.next b) s rest := by
  constructor
  · rintro ⟨v, hv, hzero, hfirst⟩
    cases v with
    | nil => exact absurd hzero hc
    | cons b' v =>
      obtain ⟨rfl, rfl⟩ := List.cons.inj hv
      refine ⟨v, rfl, hzero, fun w hw hne => ?_⟩
      exact hfirst (b :: w) (List.cons_prefix_cons.mpr ⟨rfl, hw⟩) fun h => hne (List.cons.inj h).2
  · rintro ⟨v, rfl, hzero, hfirst⟩
    refine ⟨b :: v, rfl, hzero, fun w hw hne => ?_⟩
    cases w with
    | nil => exact hc
    | cons b' w =>
      obtain ⟨rfl, hw'⟩ := List.cons_prefix_cons.mp hw
      exact hfirst w hw' fun h => hne (h ▸ rfl)

end Count

variable {c : Count} {s mid rest v : Bytes} {n : Nat}

/-- The insides of `n` nested comments, up to where all are closed. -/
def Bodies : Nat → Bytes → Bytes → Prop
  | 0, s, rest => s = rest
  | n + 1, s, rest => ∃ mid, CommentBody s mid ∧ Bodies n mid rest

/-- Each byte does to the count what it does to the derivation. -/
theorem closes_of_body (h : CommentBody s mid) (hmid : Count.Closes ⟨n, false⟩ mid rest) :
    Count.Closes ⟨n + 1, false⟩ s rest := by
  induction h generalizing n with
  | close =>
    apply (Count.closes_cons (Nat.succ_ne_zero n)).mpr
    rwa [Count.next_close]
  | text hb _ ih =>
    apply (Count.closes_cons (Nat.succ_ne_zero n)).mpr
    rw [Count.next_text hb]
    exact ih hmid
  | pair _ ih =>
    apply (Count.closes_cons (Nat.succ_ne_zero n)).mpr
    apply (Count.closes_cons (Nat.succ_ne_zero n)).mpr
    rw [Count.next_backslash, Count.next_escaped]
    exact ih hmid
  | comment _ _ ih ih' =>
    apply (Count.closes_cons (Nat.succ_ne_zero n)).mpr
    rw [Count.next_open]
    exact ih (ih' hmid)

theorem byte_cases (b : UInt8) : b = '\\'.toUInt8 ∨ b = '('.toUInt8 ∨ b = ')'.toUInt8 ∨
    (isCommentText b = true ∨ isSpace b = true) := by
  by_cases hpair : b = '\\'.toUInt8
  · exact .inl hpair
  · by_cases hopen : b = '('.toUInt8
    · exact .inr (.inl hopen)
    · by_cases hclose : b = ')'.toUInt8
      · exact .inr (.inr (.inl hclose))
      · refine .inr (.inr (.inr ?_))
        cases hspace : isSpace b with
        | true => exact .inr rfl
        | false =>
          left
          simp [isCommentText, isOneOf, hspace, Ne.symm hpair, Ne.symm hopen, Ne.symm hclose]

theorem bodies_of_closes (h : Count.Closes ⟨n, false⟩ s rest) : Bodies n s rest := by
  induction hl : s.length using Nat.strongRecOn generalizing s n with
  | ind l ih =>
    cases n with
    | zero => exact Count.closes_zero.mp h
    | succ n =>
      cases s with
      | nil => exact absurd h (Count.not_closes_nil (Nat.succ_ne_zero n))
      | cons b s =>
        rw [List.length_cons] at hl
        replace h := (Count.closes_cons (Nat.succ_ne_zero n)).mp h
        rcases byte_cases b with rfl | rfl | rfl | hb
        · -- The backslash is looked at with the byte after it.
          rw [Count.next_backslash] at h
          cases s with
          | nil => exact absurd h (Count.not_closes_nil (Nat.succ_ne_zero n))
          | cons b s =>
            rw [List.length_cons] at hl
            replace h := (Count.closes_cons (Nat.succ_ne_zero n)).mp h
            rw [Count.next_escaped] at h
            obtain ⟨mid, hbody, hrest⟩ : Bodies (n + 1) s rest := ih s.length (by omega) h rfl
            exact ⟨mid, .pair hbody, hrest⟩
        · obtain ⟨mid, hbody, mid', hbody', hrest⟩ : Bodies (n + 2) s rest :=
            ih s.length (by omega) h rfl
          exact ⟨mid', .comment hbody hbody', hrest⟩
        · exact ⟨s, .close, ih s.length (by omega) h rfl⟩
        · rw [Count.next_text hb] at h
          obtain ⟨mid, hbody, hrest⟩ : Bodies (n + 1) s rest := ih s.length (by omega) h rfl
          exact ⟨mid, .text hb hbody, hrest⟩

theorem commentBody_iff_closes : CommentBody s rest ↔ Count.Closes ⟨1, false⟩ s rest := by
  constructor
  · intro h
    exact closes_of_body h (Count.closes_zero.mpr rfl)
  · intro h
    obtain ⟨mid, hbody, rfl⟩ := bodies_of_closes h
    exact hbody

theorem isComment_cons {a : Bytes} : IsComment ('('.toUInt8 :: a) ↔
    (Count.after ⟨1, false⟩ a).depth = 0 ∧
      ∀ w, w <+: a → w ≠ a → (Count.after ⟨1, false⟩ w).depth ≠ 0 := by
  constructor
  · rintro ⟨-, hclosed, hfirst⟩
    refine ⟨hclosed, fun w hw hne hzero => hne ?_⟩
    have he := hfirst ('('.toUInt8 :: w) (List.cons_prefix_cons.mpr ⟨rfl, hw⟩)
      (List.cons_ne_nil _ _) hzero
    exact (List.cons.inj he).2
  · rintro ⟨hclosed, hfirst⟩
    refine ⟨rfl, hclosed, fun w hw hne hzero => ?_⟩
    cases w with
    | nil => exact absurd rfl hne
    | cons b w =>
      obtain ⟨rfl, hw'⟩ := List.cons_prefix_cons.mp hw
      by_cases h : w = a
      · exact h ▸ rfl
      · exact absurd hzero (hfirst w hw' h)

theorem commentBody_iff :
    CommentBody s rest ↔ ∃ v, IsComment ('('.toUInt8 :: v) ∧ s = v ++ rest := by
  rw [commentBody_iff_closes]
  constructor
  · rintro ⟨v, hs, hv⟩
    exact ⟨v, isComment_cons.mpr hv, hs⟩
  · rintro ⟨v, hv, hs⟩
    exact ⟨v, hs, isComment_cons.mp hv⟩

theorem exists_isComment (hopens : v.head? = some '('.toUInt8) (hclosed : depthAfter v = 0) :
    ∃ c, IsComment c ∧ c <+: v := by
  induction hl : v.length using Nat.strongRecOn generalizing v with
  | ind l ih =>
    by_cases hfirst : ∀ w, w <+: v → w ≠ [] → depthAfter w = 0 → w = v
    · exact ⟨v, ⟨hopens, hclosed, hfirst⟩, List.prefix_rfl⟩
    · simp only [Classical.not_forall] at hfirst
      obtain ⟨w, hw, hne, hzero, hwv⟩ := hfirst
      have hlt : w.length < l := by
        refine hl ▸ Nat.lt_of_le_of_ne hw.length_le fun h => hwv ?_
        exact hw.eq_of_length h
      have hhead : w.head? = some '('.toUInt8 := by
        obtain ⟨b, t, rfl⟩ := List.exists_cons_of_ne_nil hne
        obtain ⟨u, rfl⟩ := hw
        exact hopens
      obtain ⟨c, hc, hcw⟩ := ih w.length hlt hhead hzero rfl
      exact ⟨c, hc, hcw.trans hw⟩

section Reading

variable {bound : Bytes}

/-- As many levels as the text has bytes are no limit. -/
theorem comment_eq_some_iff (hs : s.length ≤ bound.length) :
    (comment bound : ByteParser Unit) s = some ((), rest) ↔ ∃ v, IsComment v ∧ s = v ++ rest := by
  constructor
  · intro h
    obtain ⟨a, rfl, ha⟩ := comment_sound h
    obtain ⟨v, hv, rfl⟩ := commentBody_iff.mp ha
    exact ⟨_, hv, rfl⟩
  · rintro ⟨v, hv, rfl⟩
    obtain ⟨a, rfl⟩ := List.head?_eq_some_iff.mp hv.opens
    exact comment_complete (commentBody_iff.mpr ⟨a, hv, rfl⟩) hs

theorem exists_comment_iff (hs : s.length ≤ bound.length) :
    (∃ r, (comment bound : ByteParser Unit) s = some r) ↔
      s.head? = some '('.toUInt8 ∧ ∃ v, v <+: s ∧ v ≠ [] ∧ depthAfter v = 0 := by
  constructor
  · rintro ⟨⟨⟨⟩, rest⟩, h⟩
    obtain ⟨v, hv, rfl⟩ := (comment_eq_some_iff hs).mp h
    obtain ⟨a, rfl⟩ := List.head?_eq_some_iff.mp hv.opens
    exact ⟨rfl, _, List.prefix_append _ _, List.cons_ne_nil _ _, hv.closed⟩
  · rintro ⟨hopens, v, hv, hne, hclosed⟩
    have hhead : v.head? = some '('.toUInt8 := by
      obtain ⟨b, t, rfl⟩ := List.exists_cons_of_ne_nil hne
      obtain ⟨u, rfl⟩ := hv
      exact hopens
    obtain ⟨c, hc, hcv⟩ := exists_isComment hhead hclosed
    obtain ⟨rest, rfl⟩ := hcv.trans hv
    exact ⟨_, (comment_eq_some_iff hs).mpr ⟨c, hc, rfl⟩⟩

end Reading

theorem filler_iff_text : Filler s rest ↔ ∃ v, FillerText v ∧ s = v ++ rest := by
  constructor
  · intro h
    induction h with
    | nil => exact ⟨[], .nil, rfl⟩
    | space hb _ ih =>
      obtain ⟨v, hv, rfl⟩ := ih
      exact ⟨_, .space hb hv, rfl⟩
    | comment hbody _ ih =>
      obtain ⟨v, hv, rfl⟩ := ih
      obtain ⟨c, hc, rfl⟩ := commentBody_iff.mp hbody
      exact ⟨_, .comment hc hv, by simp⟩
  · rintro ⟨v, hv, rfl⟩
    induction hv with
    | nil => exact .nil
    | space hb _ ih => exact .space hb ih
    | @comment c v hc _ ih =>
      obtain ⟨a, rfl⟩ := List.head?_eq_some_iff.mp hc.opens
      rw [List.append_assoc]
      exact .comment (commentBody_iff.mpr ⟨a, hc, rfl⟩) ih

theorem settled_iff_stops : Settled s ↔ FillerStops s := by
  constructor
  · rintro ⟨hspace, hcomment⟩
    refine ⟨hspace, fun hopens v hv hne hclosed => ?_⟩
    obtain ⟨r, hr⟩ := (exists_comment_iff (Nat.le_refl _)).mpr ⟨hopens, v, hv, hne, hclosed⟩
    obtain ⟨a, rfl, ha⟩ := comment_sound hr
    exact hcomment a _ rfl ha
  · rintro ⟨hspace, hunclosed⟩
    refine ⟨hspace, ?_⟩
    rintro a rest rfl ha
    obtain ⟨v, hv, rfl⟩ := commentBody_iff.mp ha
    exact hunclosed rfl _ (List.prefix_append ('('.toUInt8 :: v) rest) (List.cons_ne_nil _ _)
      hv.closed

theorem filler_eq_some_iff : (filler : ByteParser Unit) s = some ((), rest) ↔
    ∃ v, FillerText v ∧ s = v ++ rest ∧ FillerStops rest := by
  rw [filler_eq_some, ← settled_iff_stops]
  constructor
  · rintro rfl
    obtain ⟨v, hv, hs⟩ := filler_iff_text.mp (filler_skip s)
    exact ⟨v, hv, hs, settled_skip s⟩
  · rintro ⟨v, hv, hs, hrest⟩
    have hfiller : Filler s rest := filler_iff_text.mpr ⟨v, hv, hs⟩
    exact ((skip_eq_of_filler hfiller).trans (skip_eq_self hrest)).symm

theorem fillerText_prefix (h : (filler : ByteParser Unit) (v ++ rest) = some ((), rest))
    {w : Bytes} (hw : FillerText w) (hwv : w <+: v ++ rest) : w <+: v := by
  obtain ⟨t, ht⟩ := hwv
  have hskip : rest = skip (v ++ rest) := filler_eq_some.mp h
  have ht' : skip (v ++ rest) = skip t := skip_eq_of_filler (filler_iff_text.mpr ⟨w, hw, ht.symm⟩)
  have hsuffix : skip t <:+ t := shortens_filler (filler_eq_skip t)
  have hle : rest.length ≤ t.length := by
    rw [hskip, ht']
    exact hsuffix.length_le
  have hlength := congrArg List.length ht
  simp only [List.length_append] at hlength
  exact List.prefix_of_prefix_length_le ⟨t, ht⟩ (List.prefix_append v rest) (by omega)

/-- A comment ends where the count of open parentheses is first at zero, and a filler is as long as
it can be. -/
theorem comments_by_count (s : Bytes) :
    (∀ bound : Bytes, s.length ≤ bound.length →
      ((∃ r, (comment bound : ByteParser Unit) s = some r) ↔
        s.head? = some '('.toUInt8 ∧ ∃ v, v <+: s ∧ v ≠ [] ∧ depthAfter v = 0) ∧
      ∀ rest, (comment bound : ByteParser Unit) s = some ((), rest) ↔
        ∃ v, IsComment v ∧ s = v ++ rest) ∧
    ∃ v rest, (filler : ByteParser Unit) s = some ((), rest) ∧ s = v ++ rest ∧ FillerText v ∧
      (∀ w, FillerText w → w <+: s → w <+: v) ∧ FillerStops rest ∧
      ∀ w t, FillerText w → s = w ++ t → FillerStops t → t = rest := by
  refine ⟨fun bound hs => ⟨exists_comment_iff hs, fun rest => comment_eq_some_iff hs⟩, ?_⟩
  obtain ⟨v, hv, hs, hstops⟩ := filler_eq_some_iff.mp (filler_eq_skip s)
  refine ⟨v, skip s, filler_eq_skip s, hs, hv, fun w hw hwv => ?_, hstops, ?_⟩
  · rw [hs] at hwv
    refine fillerText_prefix ?_ hw hwv
    rw [← hs]
    exact filler_eq_skip s
  · intro w t hw ht ht'
    have hread := filler_eq_some_iff.mpr ⟨w, hw, ht, ht'⟩
    exact filler_eq_some.mp hread

end MailSearch.Address
