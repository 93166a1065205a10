import MailSearch.Proofs.Address.Counting
import MailSearch.Proofs.Address.Mailboxes
import MailSearch.Proofs.Parser.Loops

/-! # Progress of the address grammar

Every production leaves an end of its input. What stands in a repetition takes a byte at least, and
so does what separates the elements of a list: loops over the grammar come to an end, and none of
them gives up. A comment may have as many levels as its text has bytes, which is as many as it can
have, so comments of any depth are among its pieces.
-/

namespace MailSearch.Address

open MailSearch.Parser

/-- A comment of any depth, for it has no more levels than bytes. -/
def anyComment : ByteParser Unit := fun s => comment s s

def anyCommentPiece : ByteParser Unit :=
  (do let _ ← run isCommentText <|> quotedPair <|> blank) <|> anyComment

def anyFillerPiece : ByteParser Unit := (do let _ ← blank) <|> anyComment

inductive Production : {α : Type} → ByteParser α → Prop
  | quotedPair : Production quotedPair
  | blank : Production blank
  | commentText : Production (run isCommentText)
  | commentPiece (bound : Bytes) : Production (commentPiece bound)
  | comment (bound : Bytes) : Production (comment bound)
  | anyComment : Production anyComment
  | filler : Production filler
  | atomText : Production (run isAtomText)
  | atom : Production atom
  | quotedText : Production (run isQuotedText)
  | quotedPiece : Production (contentPiece isQuotedText)
  | quotedString : Production quotedString
  | word : Production word
  | nameDot : Production nameDot
  | phrase : Production phrase
  | localPart : Production localPart
  | dottedDomain : Production dottedDomain
  | domainText : Production (run isDomainText)
  | domainPiece : Production (contentPiece isDomainText)
  | domainLiteral : Production domainLiteral
  | domain : Production domain
  | addrSpec : Production addrSpec
  | delimiter : Production delimiter
  | route : Production route
  | angleAddr : Production angleAddr
  | mailbox : Production mailboxRule
  | mailboxes : Production (listOf mailboxRule)
  | group : Production groupRule
  | address : Production addressRule
  | addresses : Production (listOf addressRule)

inductive Repeated : {α : Type} → ByteParser α → Prop
  | commentPiece (bound : Bytes) : Repeated (commentPiece bound)
  | anyCommentPiece : Repeated anyCommentPiece
  | fillerPiece (bound : Bytes) : Repeated (fillerPiece bound)
  | anyFillerPiece : Repeated anyFillerPiece
  | quotedPiece : Repeated (contentPiece isQuotedText)
  | domainPiece : Repeated (contentPiece isDomainText)
  | phrasePart : Repeated phrasePart
  | comma : Repeated comma

inductive Listed : {β α : Type} → ByteParser β → ByteParser α → Prop
  | localPart : Listed (byte '.') word
  | domain : Listed (byte '.') atom
  | route : Listed delimiter routeHost
  | mailboxes : Listed delimiter mailboxRule
  | addresses : Listed delimiter addressRule

section AnyDepth

variable {α : Type} {p q q' : ByteParser α} {s bound : Bytes}

theorem manyWithin_congr (hp : Shortens p) (h : ∀ t, t <:+ s → p t = q t) :
    manyWithin p bound s = manyWithin q bound s := by
  induction bound generalizing s with
  | nil => rfl
  | cons b bound ih =>
    have hs := h s List.suffix_rfl
    cases hp' : p s with
    | none => rw [manyWithin_of_eq_none hp', manyWithin_of_eq_none (hs.symm.trans hp')]
    | some r =>
      obtain ⟨a, rest⟩ := r
      have hrest := ih fun t ht => h t (ht.trans (hp hp'))
      rw [manyWithin_of_eq_some hp', manyWithin_of_eq_some (hs.symm.trans hp'), hrest]

theorem orElse_congr (h : q s = q' s) : (p <|> q) s = (p <|> q') s := by
  change (p s <|> q s) = (p s <|> q' s)
  rw [h]

theorem comment_eq_anyComment (hs : s.length ≤ bound.length) :
    (comment bound : ByteParser Unit) s = anyComment s := by
  refine Option.ext fun r => ?_
  exact (comment_eq_some_iff hs).trans (comment_eq_some_iff (Nat.le_refl _)).symm

theorem many_commentPiece (s : Bytes) : many (commentPiece s) s = many anyCommentPiece s := by
  refine manyWithin_congr (progresses_commentPiece s).shortens fun t ht => ?_
  exact orElse_congr (comment_eq_anyComment ht.length_le)

theorem many_fillerPiece (s : Bytes) : many (fillerPiece s) s = many anyFillerPiece s := by
  refine manyWithin_congr (progresses_fillerPiece s).shortens fun t ht => ?_
  exact orElse_congr (comment_eq_anyComment ht.length_le)

theorem anyComment_eq : anyComment = (do
    byte '('
    let _ ← many anyCommentPiece
    byte ')') := by
  funext s
  cases s with
  | nil => rfl
  | cons b s =>
    change (comment (b :: s) : ByteParser Unit) (b :: s) = _
    rw [comment_cons_eq]
    cases hopen : (byte '(' : ByteParser Unit) (b :: s) with
    | none => rw [bind_of_eq_none hopen, bind_of_eq_none hopen]
    | some r =>
      obtain ⟨⟨⟩, rest⟩ := r
      obtain ⟨-, rfl⟩ := List.cons.inj (byte_eq_some.mp hopen)
      obtain ⟨us, mid, hmany, -⟩ := (progresses_commentPiece s).exists_many_eq s
      rw [bind_of_eq_some hopen, bind_of_eq_some hopen, bind_of_eq_some hmany,
        bind_of_eq_some ((many_commentPiece s).symm.trans hmany)]

theorem filler_eq_any : (filler : ByteParser Unit) = (do let _ ← many anyFillerPiece) := by
  funext s
  obtain ⟨us, rest, hmany, -⟩ := (progresses_fillerPiece s).exists_many_eq s
  rw [filler_eq, bind_of_eq_some hmany, bind_of_eq_some ((many_fillerPiece s).symm.trans hmany)]

theorem progresses_anyComment : Progresses anyComment :=
  fun s _ _ h => progresses_comment s h

theorem progresses_anyCommentPiece : Progresses anyCommentPiece :=
  progresses_piece progresses_anyComment

theorem progresses_anyFillerPiece : Progresses anyFillerPiece :=
  (progresses_blank.bind fun _ => shortens_pure _).orElse progresses_anyComment

end AnyDepth

section Grammar

variable {α β : Type} {p : ByteParser α} {sep : ByteParser β}

theorem Production.shortens (h : Production p) : Shortens p := by
  cases h with
  | quotedPair => exact progresses_quotedPair.shortens
  | blank => exact progresses_blank.shortens
  | commentText => exact (progresses_run _).shortens
  | commentPiece bound => exact (progresses_commentPiece bound).shortens
  | comment bound => exact (progresses_comment bound).shortens
  | anyComment => exact progresses_anyComment.shortens
  | filler => exact shortens_filler
  | atomText => exact (progresses_run _).shortens
  | atom => exact progresses_atom.shortens
  | quotedText => exact (progresses_run _).shortens
  | quotedPiece => exact progresses_contentPiece.shortens
  | quotedString => exact progresses_quotedString.shortens
  | word => exact progresses_word.shortens
  | nameDot => exact progresses_nameDot.shortens
  | phrase => exact progresses_phrase.shortens
  | localPart => exact progresses_localPart.shortens
  | dottedDomain => exact (progresses_atom.sepBy1 (progresses_byte _).shortens).shortens
  | domainText => exact (progresses_run _).shortens
  | domainPiece => exact progresses_contentPiece.shortens
  | domainLiteral => exact progresses_enclosed.shortens
  | domain => exact progresses_domain.shortens
  | addrSpec => exact progresses_addrSpec.shortens
  | delimiter => exact progresses_delimiter.shortens
  | route => exact progresses_route.shortens
  | angleAddr => exact progresses_angleAddr.shortens
  | mailbox => exact progresses_mailboxRule.shortens
  | mailboxes => exact (progresses_listOf progresses_mailboxRule).shortens
  | group => exact progresses_groupRule.shortens
  | address => exact progresses_addressRule.shortens
  | addresses => exact (progresses_listOf progresses_addressRule).shortens

theorem Repeated.progresses (h : Repeated p) : Progresses p := by
  cases h with
  | commentPiece bound => exact progresses_commentPiece bound
  | anyCommentPiece => exact progresses_anyCommentPiece
  | fillerPiece bound => exact progresses_fillerPiece bound
  | anyFillerPiece => exact progresses_anyFillerPiece
  | quotedPiece => exact progresses_contentPiece
  | domainPiece => exact progresses_contentPiece
  | phrasePart => exact progresses_phrasePart
  | comma => exact progresses_comma

theorem Listed.progresses (h : Listed sep p) : Progresses sep ∧ Progresses p := by
  cases h with
  | localPart => exact ⟨progresses_byte _, progresses_word⟩
  | domain => exact ⟨progresses_byte _, progresses_atom⟩
  | route => exact ⟨progresses_delimiter, progresses_routeHost⟩
  | mailboxes => exact ⟨progresses_delimiter, progresses_mailboxRule⟩
  | addresses => exact ⟨progresses_delimiter, progresses_addressRule⟩

end Grammar

/-- Every production leaves an end of its input, and every loop over one comes to an end without
stalling. -/
theorem grammar_progresses :
    (∀ {α : Type} {p : ByteParser α}, Production p → Shortens p) ∧
    (∀ {α : Type} {p : ByteParser α}, Repeated p → Repeatable p) ∧
    (∀ {β α : Type} {sep : ByteParser β} {p : ByteParser α}, Listed sep p → Listable sep p) ∧
    anyComment = (do
      byte '('
      let _ ← many anyCommentPiece
      byte ')') ∧
    (filler : ByteParser Unit) = (do let _ ← many anyFillerPiece) := by
  refine ⟨fun h => h.shortens, fun h => h.progresses.repeatable, fun h => ?_, anyComment_eq,
    filler_eq_any⟩
  exact h.progresses.2.listable h.progresses.1

end MailSearch.Address
