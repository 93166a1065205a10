import Mathlib.Logic.Relation
import MailSearch.Address.Grammar
import MailSearch.Proofs.Parser.Repetition

/-! # The grammar of address fields

Every production is a relation between a text, the value found at its front, and the rest of the
text. The alternatives of a production are free, and so is how far a repetition goes. Only a run of
atom text, and white space that makes a space, end where the next byte is of another class:
otherwise one atom would also be several, and one space two.
-/

namespace MailSearch.Grammar

open MailSearch.Address MailSearch.Parser
open Relation (ReflTransGen TransGen)

def Sign (c : Char) (s rest : Bytes) : Prop := s = c.toUInt8 :: rest

/-- A longest run of bytes of a class. -/
structure Run (c : UInt8 → Bool) (s v rest : Bytes) : Prop where
  append : s = v ++ rest
  nonempty : v ≠ []
  all : ∀ b ∈ v, c b = true
  stops : ∀ b ∈ rest.head?, c b = false

inductive CommentBody : Bytes → Bytes → Prop
  | close {rest : Bytes} : CommentBody (')'.toUInt8 :: rest) rest
  | text {b : UInt8} {s rest : Bytes} : isCommentText b = true ∨ isSpace b = true →
      CommentBody s rest → CommentBody (b :: s) rest
  | pair {b : UInt8} {s rest : Bytes} :
      CommentBody s rest → CommentBody ('\\'.toUInt8 :: b :: s) rest
  | comment {s mid rest : Bytes} :
      CommentBody s mid → CommentBody mid rest → CommentBody ('('.toUInt8 :: s) rest

inductive Filler : Bytes → Bytes → Prop
  | nil {s : Bytes} : Filler s s
  | space {b : UInt8} {s rest : Bytes} : isSpace b = true → Filler s rest → Filler (b :: s) rest
  | comment {s mid rest : Bytes} :
      CommentBody s mid → Filler mid rest → Filler ('('.toUInt8 :: s) rest

inductive Content (isText : UInt8 → Bool) : Bytes → Bytes → Bytes → Prop
  | nil {s : Bytes} : Content isText s [] s
  | text {b : UInt8} {s v rest : Bytes} : isText b = true →
      Content isText s v rest → Content isText (b :: s) (b :: v) rest
  | pair {b : UInt8} {s v rest : Bytes} :
      Content isText s v rest → Content isText ('\\'.toUInt8 :: b :: s) (b :: v) rest
  | space {s blanks mid v rest : Bytes} : Run isSpace s blanks mid →
      Content isText mid v rest → Content isText s (' '.toUInt8 :: v) rest

def Atom (s v rest : Bytes) : Prop :=
  ∃ a b, Filler s a ∧ Run isAtomText a v b ∧ Filler b rest

def QuotedString (s v rest : Bytes) : Prop :=
  ∃ a b, Filler s ('"'.toUInt8 :: a) ∧ Content isQuotedText a v ('"'.toUInt8 :: b) ∧ Filler b rest

def Word (s v rest : Bytes) : Prop := Atom s v rest ∨ QuotedString s v rest

def NameDot (s v rest : Bytes) : Prop := ∃ a, Sign '.' s a ∧ Filler a rest ∧ v = ['.'.toUInt8]

def Phrase (s : Bytes) (vs : List Bytes) (rest : Bytes) : Prop :=
  ∃ v others a, vs = v :: others ∧ Word s v a ∧
    Many (fun s v rest => Word s v rest ∨ NameDot s v rest) a others rest

def SepBy {α : Type} (Sep : Bytes → Bytes → Prop) (R : Bytes → α → Bytes → Prop) (s : Bytes)
    (vs : List α) (rest : Bytes) : Prop :=
  ∃ v others a, vs = v :: others ∧ R s v a ∧
    Many (fun s v rest => ∃ b, Sep s b ∧ R b v rest) a others rest

def LocalPart : Bytes → List Bytes → Bytes → Prop := SepBy (Sign '.') Word

def DottedDomain : Bytes → List Bytes → Bytes → Prop := SepBy (Sign '.') Atom

def DomainLiteral (s : Bytes) (vs : List Bytes) (rest : Bytes) : Prop :=
  ∃ a b v, Filler s ('['.toUInt8 :: a) ∧ Content isDomainText a v (']'.toUInt8 :: b) ∧
    Filler b rest ∧ vs = ['['.toUInt8 :: v ++ [']'.toUInt8]]

def Domain (s : Bytes) (vs : List Bytes) (rest : Bytes) : Prop :=
  DottedDomain s vs rest ∨ DomainLiteral s vs rest

def AddrSpec (s : Bytes) (spec : MailSearch.AddrSpec) (rest : Bytes) : Prop :=
  ∃ a b, LocalPart s spec.localPart a ∧ Sign '@' a b ∧ Domain b spec.domain rest

def Delimiter (s rest : Bytes) : Prop := ∃ a, Filler s (','.toUInt8 :: a) ∧ Filler a rest

def RouteHost (s : Bytes) (vs : List Bytes) (rest : Bytes) : Prop :=
  ∃ a, Sign '@' s a ∧ Domain a vs rest

def Route (s rest : Bytes) : Prop :=
  ∃ hosts a, SepBy (TransGen Delimiter) RouteHost s hosts a ∧ Sign ':' a rest

def AngleAddr (s : Bytes) (spec : MailSearch.AddrSpec) (rest : Bytes) : Prop :=
  ∃ a b c, Filler s ('<'.toUInt8 :: a) ∧ (b = a ∨ Route a b) ∧
    AddrSpec b spec ('>'.toUInt8 :: c) ∧ Filler c rest

inductive Mailbox : Bytes → MailSearch.Mailbox → Bytes → Prop
  | named {s a rest : Bytes} {name : List Bytes} {spec : MailSearch.AddrSpec} :
      Phrase s name a → AngleAddr a spec rest → Mailbox s ⟨name, spec⟩ rest
  | angle {s rest : Bytes} {spec : MailSearch.AddrSpec} :
      AngleAddr s spec rest → Mailbox s ⟨[], spec⟩ rest
  | bare {s rest : Bytes} {spec : MailSearch.AddrSpec} :
      AddrSpec s spec rest → Mailbox s ⟨[], spec⟩ rest

def ListOf {α : Type} (R : Bytes → α → Bytes → Prop) (s : Bytes) (vs : List α) (rest : Bytes) :
    Prop :=
  ∃ a b, ReflTransGen Delimiter s a ∧ SepBy (TransGen Delimiter) R a vs b ∧
    ReflTransGen Delimiter b rest

/-- The members of a group, up to its closing semicolon. -/
inductive Members : Bytes → List MailSearch.Mailbox → Bytes → Prop
  | none {s rest : Bytes} : Filler s (';'.toUInt8 :: rest) → Members s [] rest
  | some {s a rest : Bytes} {boxes : List MailSearch.Mailbox} :
      ListOf Mailbox s boxes a → Filler a (';'.toUInt8 :: rest) → Members s boxes rest

inductive Address : Bytes → MailSearch.Address → Bytes → Prop
  | mailbox {s rest : Bytes} {box : MailSearch.Mailbox} :
      Mailbox s box rest → Address s (.mailbox box) rest
  | group {s a b rest : Bytes} {name : List Bytes} {boxes : List MailSearch.Mailbox} :
      Phrase s name (':'.toUInt8 :: a) → Members a boxes b → Filler b rest →
      Address s (.group name boxes) rest

end MailSearch.Grammar
