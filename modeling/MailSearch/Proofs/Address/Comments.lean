import MailSearch.Proofs.Address.Productions

/-! # Comments

The pieces of which comments, fillers and quoted text are made, and the comments themselves: one is
read exactly where the grammar has one, and it ends where its parentheses say.
-/

namespace MailSearch.Address

open MailSearch.Parser

variable {s rest : Bytes} {b : UInt8} {c : UInt8 → Bool}

theorem byte_eq_some {ch : Char} {r : Unit × Bytes} :
    (byte ch : ByteParser Unit) s = some r ↔ Grammar.Sign ch s r.2 :=
  symbol_eq_some

theorem byte_cons (ch : Char) : (byte ch : ByteParser Unit) (ch.toUInt8 :: s) = some ((), s) :=
  byte_eq_some.mpr rfl

/-- The text does not start with the character. -/
def Avoids (ch : Char) (s : Bytes) : Prop := s.head? ≠ some ch.toUInt8

theorem avoids_nil (ch : Char) : Avoids ch [] := by
  rintro ⟨⟩

theorem avoids_cons {ch : Char} (h : (b == ch.toUInt8) = false) : Avoids ch (b :: s) := by
  rintro ⟨⟩
  exact beq_eq_false_iff_ne.mp h rfl

theorem byte_of_avoids {ch : Char} (h : Avoids ch s) : (byte ch : ByteParser Unit) s = none := by
  cases hb : (byte ch : ByteParser Unit) s with
  | none => rfl
  | some r =>
    have hs : s = ch.toUInt8 :: r.2 := byte_eq_some.mp hb
    rw [hs] at h
    exact absurd rfl h

theorem progresses_byte (ch : Char) : Progresses (byte ch : ByteParser Unit) :=
  progresses_symbol _

theorem run_eq_some {v : Bytes} :
    (run c : ByteParser Bytes) s = some (v, rest) ↔ Grammar.Run c s v rest := by
  constructor
  · intro h
    simp only [run, bind_eq_some, satisfy_eq_some, pure_eq_some, Prod.mk.injEq] at h
    obtain ⟨b, mid, ⟨hb, rfl⟩, as, rest', hspan, rfl, rfl⟩ := h
    cases hspan
    refine ⟨by simp, by simp, fun x hx => ?_, fun x hx => ?_⟩
    · rcases List.mem_cons.mp hx with rfl | hx
      · exact hb
      · exact List.all_eq_true.mp List.all_takeWhile x hx
    · have hnot := List.head?_dropWhile_not c mid
      rw [Option.mem_def.mp hx] at hnot
      exact hnot
  · rintro ⟨rfl, hne, hall, hstops⟩
    obtain ⟨b, as, rfl⟩ := List.exists_cons_of_ne_nil hne
    obtain ⟨hb, has⟩ := List.forall_mem_cons.mp hall
    obtain ⟨htake, hdrop⟩ := span_append has hstops
    have hspan : (span c : ByteParser Bytes) (as ++ rest) = some (as, rest) := by
      change some (_, _) = _
      rw [htake, hdrop]
    have hfirst : (satisfy c : ByteParser UInt8) (b :: (as ++ rest)) = some (b, as ++ rest) :=
      satisfy_eq_some.mpr ⟨hb, rfl⟩
    rw [List.cons_append, run, bind_of_eq_some hfirst, bind_of_eq_some hspan]
    rfl

theorem run_ne_none (hb : c b = true) : (run c : ByteParser Bytes) (b :: s) ≠ none := by
  have hfirst : (satisfy c : ByteParser UInt8) (b :: s) = some (b, s) :=
    satisfy_eq_some.mpr ⟨hb, rfl⟩
  rw [run, bind_of_eq_some hfirst]
  exact Option.some_ne_none _

theorem quotedPair_eq_some {v : Bytes} :
    (quotedPair : ByteParser Bytes) s = some (v, rest) ↔
      ∃ b, s = '\\'.toUInt8 :: b :: rest ∧ v = [b] := by
  simp only [quotedPair, bind_eq_some, byte_eq_some, Grammar.Sign, satisfy_eq_some, pure_eq_some,
    Prod.mk.injEq, true_and]
  constructor
  · rintro ⟨-, mid, rfl, b, mid', rfl, rfl, rfl⟩
    exact ⟨b, rfl, rfl⟩
  · rintro ⟨b, rfl, rfl⟩
    exact ⟨(), _, rfl, b, _, rfl, rfl, rfl⟩

theorem blank_eq_some {v : Bytes} :
    (blank : ByteParser Bytes) s = some (v, rest) ↔
      (∃ blanks, Grammar.Run isSpace s blanks rest) ∧ v = [' '.toUInt8] := by
  simp only [blank, bind_eq_some, run_eq_some, pure_eq_some, Prod.mk.injEq]
  constructor
  · rintro ⟨blanks, mid, h, rfl, rfl⟩
    exact ⟨⟨blanks, h⟩, rfl⟩
  · rintro ⟨⟨blanks, h⟩, rfl⟩
    exact ⟨blanks, rest, h, rfl, rfl⟩

theorem progresses_quotedPair : Progresses (quotedPair : ByteParser Bytes) :=
  (progresses_byte _).bind fun _ => (progresses_satisfy _).shortens.bind fun _ => shortens_pure _

theorem progresses_blank : Progresses (blank : ByteParser Bytes) :=
  (progresses_run _).bind fun _ => shortens_pure _

def commentPiece (bound : Bytes) : ByteParser Unit :=
  (do let _ ← run isCommentText <|> quotedPair <|> blank) <|> comment bound

def fillerPiece (bound : Bytes) : ByteParser Unit := (do let _ ← blank) <|> comment bound

theorem comment_cons_eq (x : UInt8) (bound : Bytes) :
    (comment (x :: bound) : ByteParser Unit) = (do
      byte '('
      let _ ← many (commentPiece bound)
      byte ')') := rfl

theorem filler_eq (s : Bytes) :
    (filler : ByteParser Unit) s = (do let _ ← many (fillerPiece s)) s := rfl

theorem progresses_piece {p : ByteParser Unit} (hp : Progresses p) :
    Progresses ((do let _ ← run isCommentText <|> quotedPair <|> blank) <|> p) :=
  (((progresses_run _).orElse (progresses_quotedPair.orElse progresses_blank)).bind
    fun _ => shortens_pure _).orElse hp

theorem progresses_comment (bound : Bytes) : Progresses (comment bound : ByteParser Unit) := by
  induction bound with
  | nil => exact progresses_failure
  | cons x bound ih =>
    rw [comment_cons_eq]
    exact (progresses_byte _).bind fun _ => (progresses_piece ih).shortens.many.bind
      fun _ => (progresses_byte _).shortens

theorem progresses_commentPiece (bound : Bytes) : Progresses (commentPiece bound) :=
  progresses_piece (progresses_comment bound)

theorem progresses_fillerPiece (bound : Bytes) : Progresses (fillerPiece bound) :=
  (progresses_blank.bind fun _ => shortens_pure _).orElse (progresses_comment bound)

end MailSearch.Address

namespace MailSearch.Grammar

open MailSearch.Address

variable {s mid rest rest' v : Bytes} {b : UInt8}

theorem Run.unique {c : UInt8 → Bool} {v' : Bytes} (h : Run c s v rest) (h' : Run c s v' rest') :
    v = v' ∧ rest = rest' := by
  have he := (run_eq_some.mpr h).symm.trans (run_eq_some.mpr h')
  simpa using he

namespace CommentBody

theorem ne_of_text (hb : isCommentText b = true ∨ isSpace b = true) :
    b ≠ ')'.toUInt8 ∧ b ≠ '\\'.toUInt8 ∧ b ≠ '('.toUInt8 := by
  refine ⟨?_, ?_, ?_⟩ <;> (rintro rfl; exact absurd hb (by decide))

theorem of_text (hb : isCommentText b = true ∨ isSpace b = true) (h : CommentBody (b :: s) rest) :
    CommentBody s rest := by
  obtain ⟨hclose, hpair, hopen⟩ := ne_of_text hb
  cases h with
  | close => exact absurd rfl hclose
  | text _ h => exact h
  | pair h => exact absurd rfl hpair
  | comment h _ => exact absurd rfl hopen

theorem of_pair (h : CommentBody ('\\'.toUInt8 :: b :: s) rest) : CommentBody s rest := by
  generalize hs : '\\'.toUInt8 :: b :: s = t at h
  cases h with
  | close => exact absurd (List.cons.inj hs).1 (by decide)
  | text hb _ => exact absurd (List.cons.inj hs).1.symm (ne_of_text hb).2.1
  | pair h =>
    obtain ⟨-, rfl⟩ := List.cons.inj (List.cons.inj hs).2
    exact h
  | comment h _ => exact absurd (List.cons.inj hs).1 (by decide)

theorem of_comment (h : CommentBody ('('.toUInt8 :: s) rest) :
    ∃ mid, CommentBody s mid ∧ CommentBody mid rest := by
  generalize hs : '('.toUInt8 :: s = t at h
  cases h with
  | close => exact absurd (List.cons.inj hs).1 (by decide)
  | text hb _ => exact absurd (List.cons.inj hs).1.symm (ne_of_text hb).2.2
  | pair h => exact absurd (List.cons.inj hs).1 (by decide)
  | comment h h' =>
    obtain ⟨-, rfl⟩ := List.cons.inj hs
    exact ⟨_, h, h'⟩

theorem of_close (h : CommentBody (')'.toUInt8 :: s) rest) : rest = s := by
  generalize hs : ')'.toUInt8 :: s = t at h
  cases h with
  | close => exact (List.cons.inj hs).2.symm
  | text hb _ => exact absurd (List.cons.inj hs).1.symm (ne_of_text hb).1
  | pair h => exact absurd (List.cons.inj hs).1 (by decide)
  | comment h _ => exact absurd (List.cons.inj hs).1 (by decide)

/-- A comment ends at one place only. -/
theorem unique (h : CommentBody s rest) (h' : CommentBody s rest') : rest = rest' := by
  induction h generalizing rest' with
  | close => exact (of_close h').symm
  | text hb _ ih => exact ih (of_text hb h')
  | pair _ ih => exact ih (of_pair h')
  | comment _ _ ih ih' =>
    obtain ⟨mid', hm, hr⟩ := of_comment h'
    obtain rfl := ih hm
    exact ih' hr

theorem append (hv : ∀ b ∈ v, isCommentText b = true ∨ isSpace b = true) :
    CommentBody (v ++ s) rest ↔ CommentBody s rest := by
  induction v with
  | nil => exact Iff.rfl
  | cons b v ih =>
    obtain ⟨hb, hv⟩ := List.forall_mem_cons.mp hv
    rw [← ih hv]
    exact ⟨of_text hb, text hb⟩

end CommentBody

end MailSearch.Grammar

namespace MailSearch.Address

open MailSearch.Parser Grammar

variable {s mid rest bound : Bytes} {u : Unit}

theorem commentPiece_eq_some (h : commentPiece bound s = some (u, mid)) :
    (comment bound : ByteParser Unit) s = some (u, mid) ∨
      ∀ rest, CommentBody s rest ↔ CommentBody mid rest := by
  rcases orElse_eq_some.mp h with h | ⟨-, h⟩
  · right
    intro rest
    obtain ⟨v, mid', hv, hp⟩ := bind_eq_some.mp h
    cases pure_eq_some.mp hp
    rcases orElse_eq_some.mp hv with hv | ⟨-, hv⟩
    · obtain ⟨rfl, -, hall, -⟩ := run_eq_some.mp hv
      exact CommentBody.append fun b hb => .inl (hall b hb)
    · rcases orElse_eq_some.mp hv with hv | ⟨-, hv⟩
      · obtain ⟨b, rfl, -⟩ := quotedPair_eq_some.mp hv
        exact ⟨CommentBody.of_pair, CommentBody.pair⟩
      · obtain ⟨⟨blanks, rfl, -, hall, -⟩, -⟩ := blank_eq_some.mp hv
        exact CommentBody.append fun b hb => .inr (hall b hb)
  · exact .inl h

theorem comment_sound (h : (comment bound : ByteParser Unit) s = some (u, rest)) :
    ∃ a, s = '('.toUInt8 :: a ∧ CommentBody a rest := by
  induction bound generalizing s u rest with
  | nil => cases h
  | cons x bound ih =>
    rw [comment_cons_eq] at h
    simp only [bind_eq_some, byte_eq_some] at h
    obtain ⟨-, a, hopen, us, mid, hmany, hclose⟩ := h
    refine ⟨a, hopen, ?_⟩
    have hpieces := many_of_manyWithin hmany
    clear hmany hopen
    induction hpieces with
    | nil =>
      cases hclose
      exact .close
    | cons hp _ ih' =>
      rcases commentPiece_eq_some hp with hc | hiff
      · obtain ⟨a', rfl, ha'⟩ := ih hc
        exact .comment ha' (ih' hclose)
      · exact (hiff _).mpr (ih' hclose)

theorem commentBody_of_pieces {us : List Unit}
    (hm : Many (fun s u mid => commentPiece bound s = some (u, mid)) s us mid)
    (h : CommentBody s rest) : CommentBody mid rest := by
  induction hm with
  | nil => exact h
  | cons hp _ ih =>
    apply ih
    rcases commentPiece_eq_some hp with hc | hiff
    · obtain ⟨a, rfl, ha⟩ := comment_sound hc
      obtain ⟨mid', hmid, hrest⟩ := h.of_comment
      rwa [ha.unique hmid]
    · exact (hiff _).mp h

theorem comment_complete (h : CommentBody s rest) (hs : s.length < bound.length) :
    (comment bound : ByteParser Unit) ('('.toUInt8 :: s) = some ((), rest) := by
  induction bound generalizing s rest with
  | nil => exact absurd hs (Nat.not_lt_zero _)
  | cons x bound ih =>
    obtain ⟨us, mid, hmany, hstop⟩ := (progresses_commentPiece bound).exists_many_eq s
    have hmid := commentBody_of_pieces (many_of_manyWithin hmany) h
    have hle := ((progresses_commentPiece bound).shortens.many hmany).length_le
    obtain ⟨hpart, hcomment⟩ := orElse_eq_none.mp hstop
    obtain ⟨hrun, hpart⟩ := orElse_eq_none.mp (bind_pure_eq_none.mp hpart)
    obtain ⟨hpair, hblank⟩ := orElse_eq_none.mp hpart
    rw [comment_cons_eq, bind_of_eq_some (byte_cons _), bind_of_eq_some hmany]
    cases hmid with
    | close => exact byte_cons _
    | text hb _ =>
      rcases hb with hb | hb
      · exact absurd hrun (run_ne_none hb)
      · exact absurd (bind_pure_eq_none.mp hblank) (run_ne_none hb)
    | pair _ =>
      rw [quotedPair_eq_some.mpr ⟨_, rfl, rfl⟩] at hpair
      cases hpair
    | comment hin _ =>
      rw [List.length_cons] at hs hle
      rw [ih hin (by omega)] at hcomment
      cases hcomment

end MailSearch.Address
